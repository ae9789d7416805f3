import Cdk.Mint.DatabaseSpec

/-!
# Mint quotes

A quote is credited by payment notifications and by checks on demand, and it is
debited by the requests that issue signatures for it. Every credit and every
debit is one transaction, which reads the quote again before it writes.
-/

namespace Cdk

open Lib

structure MintRequest where
  quote : QuoteId
  outputs : List BlindedMessage
  signature : Option String
deriving DecidableEq, Repr

/-- A payment that the backend reports. -/
structure WaitPaymentResponse where
  paymentIdentifier : PaymentIdentifier
  paymentAmount : Amount
  unit : CurrencyUnit
  paymentId : String
deriving DecidableEq, Repr

/-- `to_unit`. -/
def toUnit (amount : Amount) : CurrencyUnit → CurrencyUnit → Outcome Error Amount
  | .sat, .sat => .ok amount
  | .msat, .msat => .ok amount
  | .sat, .msat => .ofOption .amountOverflow (Amount.ofNat? (amount.toNat * 1000))
  | .msat, .sat => .ofOption .amountOverflow (Amount.ofNat? (amount.toNat / 1000))
  | .usd, .usd => .ok amount
  | .eur, .eur => .ok amount
  | _, _ => .err .cannotConvertUnits

namespace MintQuote

/-- `MintQuote::state`. -/
def state (quote : MintQuote) : MintQuoteState :=
  if quote.amountPaid = .zero ∧ quote.amountIssued = .zero then .unpaid
  else if quote.amountIssued < quote.amountPaid then .paid
  else .issued

/-- `MintQuote::amount_mintable`, which panics when more was issued than paid. -/
def amountMintable (quote : MintQuote) : Outcome Error Amount :=
  quote.amountPaid.sub quote.amountIssued

/-- A quote of a single invoice takes no payment once it is paid. -/
def closed (quote : MintQuote) : Bool :=
  quote.paymentMethod = .bolt11 ∧ (quote.state = .issued ∨ quote.state = .paid)

end MintQuote

/-- `MintQuote::payment_ids` of a stored quote. -/
def Db.paymentIds (quoteId : QuoteId) (db : Db) : List String :=
  (db.payments.rows.filter fun row => row.quoteId = quoteId).map PaymentRow.paymentId

/-! ## Credits -/

/-- `Mint::handle_mint_quote_payment`. -/
def handleMintQuotePayment (quote : MintQuote) (response : WaitPaymentResponse) :
    MintTx Unit := do
  let seen ← Tx.read (Db.paymentIds quote.id)
  if response.paymentId ∈ seen ∨ quote.closed then pure ()
  else do
    let amount ← Tx.lift (toUnit response.paymentAmount response.unit quote.unit)
    Tx.ensure (amount ≠ .zero) .amountUndefined
    let _ ← (Db.incrementMintQuoteAmountPaid quote.id amount response.paymentId).mapErr Error.ofDb

/-- `Mint::handle_payment_notification`; a payment that no quote asks for is ignored. -/
def handlePaymentNotification (response : WaitPaymentResponse) : MintTx Unit := do
  Tx.ensure (response.paymentAmount ≠ .zero) .amountUndefined
  let found ← Tx.read fun db =>
    db.mintQuotes.rows.find? fun q => q.requestLookupId = response.paymentIdentifier
  match found with
  | some quote => handleMintQuotePayment quote response
  | none => pure ()

/-- The quote in memory while a check credits several payments. -/
structure CheckedQuote where
  quote : MintQuote
  paymentIds : List String

/-- Credit one payment that is in neither the quote in memory nor the database. -/
def creditPayment (checked : CheckedQuote) (payment : WaitPaymentResponse) :
    MintTx CheckedQuote :=
  if payment.paymentId ∈ checked.paymentIds ∨ payment.paymentAmount = .zero then pure checked
  else do
    let amount ← Tx.lift (toUnit payment.paymentAmount payment.unit checked.quote.unit)
    let paid ← Tx.lift (Outcome.ofOption .amountOverflow
      (checked.quote.amountPaid.checkedAdd amount))
    let _ ← (Db.incrementMintQuoteAmountPaid checked.quote.id amount payment.paymentId).mapErr
      Error.ofDb
    pure ⟨{ checked.quote with amountPaid := paid }, checked.paymentIds ++ [payment.paymentId]⟩

/-- The transaction of `Mint::check_mint_quote_paid`, which reloads the quote. -/
def creditPayments (quoteId : QuoteId) (payments : List WaitPaymentResponse) : MintTx Unit := do
  let found ← Tx.read fun db => db.mintQuotes.find? quoteId
  let quote ← Tx.lift (Outcome.ofOption .unknownQuote found)
  let seen ← Tx.read (Db.paymentIds quoteId)
  if quote.closed then pure ()
  else do
    let _ ← payments.foldlM creditPayment ⟨quote, seen⟩

/-- The answer of the backend to a status check; there may be no backend for the quote. -/
abbrev StatusAnswer := Option (Outcome Error (List WaitPaymentResponse))

/-- `Mint::check_mint_quote_paid`. -/
def checkMintQuotePaid (answer : StatusAnswer) (quote : MintQuote) : MintTx Unit :=
  if quote.closed then pure ()
  else do
    let status ← Tx.lift (Outcome.ofOption .unsupportedUnit answer)
    let payments ← Tx.lift status
    if payments = [] then pure () else creditPayments quote.id payments

/-! ## Debits -/

namespace MintRequest

/-- `MintRequest::msg_to_sign`. -/
def msgToSign (request : MintRequest) : List UInt8 :=
  utf8 request.quote.toText ++
    request.outputs.flatMap fun output => utf8 output.blindedSecret.toHex

/-- `MintRequest::verify_signature`. -/
def verifySignature (env : Env) (request : MintRequest) (pubkey : PublicKey) :
    Outcome Nut20Error Unit := do
  let text ← Outcome.ofOption .signatureMissing request.signature
  let signature ← Outcome.ofOption .invalidSignature (Signature.fromStr text)
  .ensure (pubkey.verify env request.msgToSign signature) .nut01

end MintRequest

section Issue

variable (env : Env) (keysets : Keysets)

/-- The amount that a request may issue for a quote. -/
def mintAmount (quote : MintQuote) : Outcome Error Amount :=
  match quote.paymentMethod with
  | .bolt11 => do
      let amount ← Outcome.ofOption .amountUndefined quote.amount
      let mintable ← quote.amountMintable
      Outcome.ensure (amount = mintable) .incorrectQuoteAmount
      .ok amount
  | .bolt12 => do
      let mintable ← quote.amountMintable
      Outcome.ensure (mintable ≠ .zero) .unpaidQuote
      .ok mintable
  | .custom _ => .err .unsupportedPaymentMethod

/-- The checks of `process_mint_request` on the reloaded quote. -/
def checkMintable (request : MintRequest) (quote : MintQuote) : Outcome Error Amount := do
  Outcome.ensure (quote.state ≠ .unpaid) .unpaidQuote
  Outcome.ensure (quote.state ≠ .issued) .issuedQuote
  Outcome.ensure (¬ (quote.paymentMethod = .bolt12 ∧ quote.pubkey = none))
    .signatureMissingOrInvalid
  let amount ← mintAmount quote
  match quote.pubkey with
  | none => .ok amount
  | some pubkey => do
      (request.verifySignature env pubkey).mapErr Error.nut20
      .ok amount

/-- A single invoice is issued in full, an offer in parts. -/
def amountAccepted (quote : MintQuote) (outputs mintable : Amount) : Bool :=
  if quote.paymentMethod = .bolt11 then outputs = mintable else outputs ≤ mintable

/-- The transaction of `process_mint_request`. An empty list of outputs has no unit, and a
request with none panics once its amount has been accepted. -/
def issueSignatures (operationId : Uuid) (request : MintRequest)
    (signatures : List BlindSignature) : MintTx Unit := do
  let found ← Tx.read fun db => db.mintQuotes.find? request.quote
  let quote ← Tx.lift (Outcome.ofOption .unknownQuote found)
  let mintable ← Tx.lift (checkMintable env request quote)
  let outputs ← verifyOutputs keysets request.outputs
  Tx.ensure (amountAccepted quote outputs.amount mintable)
    (.transactionUnbalanced mintable.toNat outputs.amount.toNat 0)
  let unit ← Tx.lift (Outcome.expect outputs.unit)
  Tx.ensure (unit = quote.unit) .unsupportedUnit
  (Db.addBlindedMessages (some request.quote) request.outputs ⟨.mint, operationId⟩).mapErr
    Error.ofDb
  (Db.addBlindSignatures (request.outputs.map BlindedMessage.blindedSecret) signatures
    (some request.quote)).mapErr Error.ofDb
  let total ← Tx.lift (Outcome.ofOption .amountOverflow
    (Amount.trySum (request.outputs.map BlindedMessage.amount)))
  let _ ← (Db.incrementMintQuoteAmountIssued request.quote total).mapErr Error.ofDb

/-- `process_mint_request` after its check of the payment: sign first, then one transaction.
The signatory may know other keysets than the transaction. -/
def signAndIssue (signing : Keysets) (operationId : Uuid) (request : MintRequest) :
    MintTx (List BlindSignature) := do
  let signatures ← Tx.lift (blindSign env signing request.outputs)
  issueSignatures env keysets operationId request signatures
  pure signatures

/-- `Mint::process_mint_request`. The check of the payment commits on its own. -/
def processMintRequest (answer : StatusAnswer) (operationId : Uuid) (request : MintRequest)
    (db : Db) : Outcome Error (List BlindSignature) × Db :=
  match db.mintQuotes.find? request.quote with
  | none => (.err .unknownQuote, db)
  | some quote =>
      if quote.paymentMethod = .bolt11 then
        match Tx.commit (checkMintQuotePaid answer quote) db with
        | (.ok _, checked) =>
            Tx.commit (signAndIssue env keysets keysets operationId request) checked
        | (.err e, checked) => (.err e, checked)
        | (.panic, checked) => (.panic, checked)
      else Tx.commit (signAndIssue env keysets keysets operationId request) db

end Issue

/-! ## Quotes of one invoice -/

section Invoices

variable {quote : MintQuote} {amount : Amount}

/-- A quote for one invoice that still takes payments has been credited with nothing. -/
theorem MintQuote.unpaid_of_open (hmethod : quote.paymentMethod = .bolt11)
    (hopen : quote.closed = false) : quote.amountPaid = .zero ∧ quote.amountIssued = .zero := by
  unfold MintQuote.closed MintQuote.state at hopen
  by_cases hzero : quote.amountPaid = .zero ∧ quote.amountIssued = .zero
  · exact hzero
  · rw [if_neg hzero] at hopen
    split at hopen <;> simp [hmethod] at hopen

/-- A quote of an invoice that has been credited takes no further payment. -/
theorem MintQuote.closed_of_paid (hmethod : quote.paymentMethod = .bolt11)
    (hissued : quote.amountIssued = .zero) (hamount : amount ≠ .zero) :
    MintQuote.state { quote with amountPaid := amount } = .paid ∧
      MintQuote.closed { quote with amountPaid := amount } = true := by
  have hpos : Amount.zero < amount := Nat.pos_of_ne_zero fun h => hamount (Amount.ext_toNat h)
  have hstate : MintQuote.state { quote with amountPaid := amount } = .paid := by
    simp [MintQuote.state, hissued, hamount, hpos]
  exact ⟨hstate, decide_eq_true ⟨hmethod, .inr hstate⟩⟩

theorem MintQuote.amountMintable_unissued (quote : MintQuote) (hissued : quote.amountIssued = .zero) :
    quote.amountMintable = .ok quote.amountPaid := by
  rw [MintQuote.amountMintable, hissued, Amount.sub, Outcome.expect_eq_ok,
    Amount.checkedSub_eq_some]
  rfl

/-- The amount of an invoice can be issued when just that amount has been paid. -/
theorem mintAmount_unissued (quote : MintQuote) (hmethod : quote.paymentMethod = .bolt11)
    (hissued : quote.amountIssued = .zero) :
    mintAmount quote = .ok amount ↔ quote.amount = some amount ∧ quote.amountPaid = amount := by
  simp only [mintAmount, hmethod, Outcome.bind_eq_ok, Outcome.ofOption_eq_ok,
    quote.amountMintable_unissued hissued, Outcome.ok.injEq, Outcome.ensure_eq_ok, decide_eq_true_eq]
  constructor
  · rintro ⟨asked, hasked, _, rfl, _, hsame, rfl⟩
    exact ⟨hasked, hsame.symm⟩
  · rintro ⟨hasked, hsame⟩
    exact ⟨amount, hasked, quote.amountPaid, rfl, (), hsame.symm, rfl⟩

end Invoices

end Cdk
