import Cdk.Axum.HttpCache
import Cdk.Axum.Websocket
import Cdk.Backends.MeltCost
import Cdk.Backends.PaymentStatus
import Cdk.Backends.PaymentStream
import Cdk.Backends.RemoteProcessor
import Cdk.Backends.StoredIndex
import Cdk.Mint.BlindAuth
import Cdk.Mint.ChangeConservation
import Cdk.Mint.DoubleSpend
import Cdk.Mint.MeltChange
import Cdk.Mint.NotificationOrder
import Cdk.Mint.QuoteLedger
import Cdk.Mint.Requests
import Cdk.Mint.LockedQuotes
import Cdk.Mint.StartUp
import Cdk.Mint.StateQueries
import Cdk.Nuts.Completeness
import Cdk.Nuts.Panics
import Cdk.Nuts.RefundPaths
import Cdk.Nuts.SigAllMessage
import Cdk.Nuts.SigAllRefund
import Cdk.Nuts.Tokens
import Cdk.Nuts.WitnessBuilding
import Cdk.PubSub.SubscriptionRegistry
import Cdk.Signatory.RemoteSignatory
import Cdk.Signatory.Restart
import Cdk.Sql.Statements
import Cdk.Wallet.TransactionHistory
import Cdk.Wallet.CheckerSwap
import Cdk.Wallet.MultiReceive
import Cdk.Sql.Transactions
import Cdk.Wallet.AuthTokens
import Cdk.Wallet.BlankOutputs
import Cdk.Wallet.BrowserStore
import Cdk.Wallet.Consolidation
import Cdk.Wallet.FreshSecrets
import Cdk.Wallet.HalvingSearch
import Cdk.Wallet.ReceivedProofs
import Cdk.Wallet.MeltAnswers
import Cdk.Wallet.Melting
import Cdk.Wallet.MintUrlForm
import Cdk.Wallet.MintUrls
import Cdk.Wallet.OfflineSafety
import Cdk.Wallet.Receive
import Cdk.Wallet.RedbKeysets
import Cdk.Wallet.RedbMigrations
import Cdk.Wallet.RedbProofs
import Cdk.Wallet.Reservations
import Cdk.Wallet.Restore
import Cdk.Wallet.RestoredValue
import Cdk.Wallet.SentTokens
import Cdk.Wallet.SeveralKeysets
import Cdk.Wallet.StoresAgree
import Cdk.Wallet.Sufficiency
