import Cdk.Mint.Signatory
import Cdk.Lib.Table

/-!
# The mint database

The tables of the SQL database and the operations that run inside one of its
transactions. Every operation is a function of the whole database, so a
transaction is a composition of them that is committed or dropped as one.

Amounts are stored in signed columns: an amount beyond `i64::MAX` becomes
`NULL`, which the columns refuse.
-/

namespace Cdk

open Lib

/-! ## State transitions -/

def State.transitionAllowed : State → State → Bool
  | .unspent, .pending => true
  | .unspent, .spent => true
  | .pending, .unspent => true
  | .pending, .spent => true
  | _, _ => false

/-- `check_state_transition`. -/
def checkStateTransition (current new : State) : Outcome StateError Unit :=
  if current.transitionAllowed new then .ok ()
  else .err (match current with
    | .pending => .pending
    | .spent => .alreadySpent
    | _ => .invalidTransition current new)

def MeltQuoteState.transitionAllowed : MeltQuoteState → MeltQuoteState → Bool
  | .unpaid, .pending => true
  | .unpaid, .failed => true
  | .pending, .unpaid => true
  | .pending, .paid => true
  | .pending, .failed => true
  | .failed, .pending => true
  | .failed, .unpaid => true
  | .unknown, _ => true
  | _, _ => false

/-- `check_melt_quote_state_transition`. -/
def checkMeltQuoteStateTransition (current new : MeltQuoteState) : Outcome StateError Unit :=
  if current.transitionAllowed new then .ok ()
  else .err (match current with
    | .pending => .pending
    | .paid => .alreadyPaid
    | _ => .invalidMeltQuoteTransition current new)

/-- `From<state::Error>` for database errors. -/
def DbError.ofState : StateError → DbError
  | .alreadySpent => .attemptUpdateSpentProof
  | e => .invalidStateTransition e

/-! ## Rows -/

inductive OperationKind where
  | swap
  | mint
  | melt
deriving DecidableEq, Repr

structure Operation where
  kind : OperationKind
  id : Uuid
deriving DecidableEq, Repr

structure ProofRow where
  y : PublicKey
  amount : Amount
  keysetId : Id
  secret : String
  c : PublicKey
  witness : Option Witness
  state : State
  quoteId : Option QuoteId
  operation : Operation
deriving DecidableEq, Repr

/-- A blinded message, with its signature once it is signed. -/
structure SignatureRow where
  blindedMessage : PublicKey
  amount : Amount
  keysetId : Id
  c : Option PublicKey
  quoteId : Option QuoteId
  operation : Option Operation
deriving DecidableEq, Repr

inductive PaymentIdentifier where
  | label (text : String)
  | offerId (text : String)
  | paymentHash (hash : BitVec 256)
  | bolt12PaymentHash (hash : BitVec 256)
  | paymentId (id : BitVec 256)
  | customId (text : String)
deriving DecidableEq, Repr

/-- The text of the lookup column, which is unique in its table. -/
def PaymentIdentifier.toText : PaymentIdentifier → String
  | .label text => text
  | .offerId text => text
  | .paymentHash hash => hexDigits 64 hash.toNat
  | .bolt12PaymentHash hash => hexDigits 64 hash.toNat
  | .paymentId id => hexDigits 64 id.toNat
  | .customId text => text

structure MintQuote where
  id : QuoteId
  amount : Option Amount
  unit : CurrencyUnit
  request : String
  requestLookupId : PaymentIdentifier
  pubkey : Option PublicKey
  amountPaid : Amount
  amountIssued : Amount
  paymentMethod : PaymentMethod
deriving DecidableEq, Repr

structure PaymentRow where
  quoteId : QuoteId
  paymentId : String
  amount : Amount
deriving DecidableEq, Repr

structure IssuedRow where
  quoteId : QuoteId
  amount : Amount
deriving DecidableEq, Repr

/-- An invoice or an offer: its text and the amount it carries, if any. -/
structure MeltPaymentRequest where
  offer : Bool
  text : String
  amount : Option (CurrencyUnit × Amount)
deriving DecidableEq, Repr

inductive MeltOptions where
  | mpp (amount : Amount)
  | amountless (amount : Amount)
deriving DecidableEq, Repr

/-- `MeltOptions::amount_msat`. -/
def MeltOptions.amountMsat : MeltOptions → Amount
  | mpp amount => amount
  | amountless amount => amount

structure MeltQuote where
  id : QuoteId
  unit : CurrencyUnit
  amount : Amount
  request : MeltPaymentRequest
  feeReserve : Amount
  state : MeltQuoteState
  requestLookupId : Option PaymentIdentifier
  options : Option MeltOptions
  paymentMethod : PaymentMethod
deriving DecidableEq, Repr

structure MeltRequestRow where
  quoteId : QuoteId
  inputsAmount : Amount
  inputsFee : Amount
deriving DecidableEq, Repr

structure Saga where
  operationId : Uuid
  blindedSecrets : List PublicKey
  inputYs : List PublicKey
deriving DecidableEq, Repr

/-- The tables of the mint. -/
structure Db where
  proofs : Table ProofRow.y
  blindSignatures : Table SignatureRow.blindedMessage
  mintQuotes : Table MintQuote.id
  payments : Table PaymentRow.paymentId
  issued : List IssuedRow
  meltQuotes : Table MeltQuote.id
  meltRequests : Table MeltRequestRow.quoteId
  sagas : Table Saga.operationId
deriving DecidableEq

def Db.empty : Db :=
  ⟨.empty, .empty, .empty, .empty, [], .empty, .empty, .empty⟩

/-- A call inside a transaction. -/
abbrev DbTx := Tx Db DbError

namespace Db

/-! ## Proofs -/

/-- The row of a proof that is added. -/
def proofRow (env : Env) (quoteId : Option QuoteId) (operation : Operation) (p : Proof) :
    Outcome DbError ProofRow := do
  let y ← Outcome.ofOption .nut00 (p.y env)
  Outcome.ensure p.amount.toI64.isSome .database
  .ok ⟨y, p.amount, p.keysetId, p.secret, p.c, p.witness, .unspent, quoteId, operation⟩

def insertProofs (rows : List ProofRow) : DbTx Unit :=
  Tx.writeOr .duplicate fun db =>
    (db.proofs.insertAll? rows).map fun t => { db with proofs := t }

/-- `add_proofs`. -/
def addProofs (env : Env) (proofs : List Proof) (quoteId : Option QuoteId)
    (operation : Operation) : DbTx Unit := do
  let ys ← Tx.lift (proofs.mapM fun p => Outcome.ofOption .nut00 (p.y env))
  let existing ← Tx.read fun db => db.proofs.rows.find? fun r => r.y ∈ ys
  match existing with
  | some r => Tx.fail (if r.state = .spent then .attemptUpdateSpentProof else .duplicate)
  | none => do
      let rows ← Tx.lift (proofs.mapM (proofRow env quoteId operation))
      insertProofs rows

def setState (ys : List PublicKey) (new : State) (r : ProofRow) : ProofRow :=
  if r.y ∈ ys then { r with state := new } else r

section SetState

variable (ys : List PublicKey) (new : State) (r : ProofRow)

@[simp] theorem setState_y : (setState ys new r).y = r.y := by
  unfold setState
  split <;> rfl

@[simp] theorem setState_amount : (setState ys new r).amount = r.amount := by
  unfold setState
  split <;> rfl

@[simp] theorem setState_secret : (setState ys new r).secret = r.secret := by
  unfold setState
  split <;> rfl

@[simp] theorem setState_quoteId : (setState ys new r).quoteId = r.quoteId := by
  unfold setState
  split <;> rfl

@[simp] theorem setState_operation : (setState ys new r).operation = r.operation := by
  unfold setState
  split <;> rfl

theorem setState_state : (setState ys new r).state = if r.y ∈ ys then new else r.state := by
  unfold setState
  split <;> rfl

end SetState

/-- `update_proofs_states`, which returns the states before the update. -/
def updateProofsStates (ys : List PublicKey) (new : State) : DbTx (List (Option State)) := do
  let found ← Tx.read fun db => db.proofs.rows.filter fun r => r.y ∈ ys
  Tx.ensure (found.length = ys.length) .proofNotFound
  Tx.lift (found.forM fun r => (checkStateTransition r.state new).mapErr DbError.ofState)
  Tx.write fun db => { db with proofs := db.proofs.update (setState ys new) (setState_y ys new) }
  pure (ys.map fun y => (found.find? fun r => r.y = y).map ProofRow.state)

/-- The rows that `remove_proofs` deletes. -/
def removable (ys : List PublicKey) (r : ProofRow) : Bool := r.y ∈ ys ∧ r.state ≠ .spent

/-- `remove_proofs`. -/
def removeProofs (ys : List PublicKey) : DbTx Unit :=
  if ys = [] then pure ()
  else do
    let deleted ← Tx.read fun db => db.proofs.rows.filter (removable ys)
    Tx.write fun db => { db with proofs := db.proofs.delete (removable ys) }
    Tx.ensure (deleted.length = ys.length) .attemptRemoveSpentProof

/-- `get_proof_ys_by_quote_id`, which recomputes the keys from the secrets. -/
def getProofYsByQuoteId (env : Env) (quoteId : QuoteId) : DbTx (List PublicKey) := do
  let rows ← Tx.read fun db => db.proofs.rows.filter fun r => r.quoteId = some quoteId
  Tx.lift (rows.mapM fun r => Outcome.ofOption .nut00 (env.hashToCurve (utf8 r.secret)))

/-! ## Blinded messages and signatures -/

def messageRow (quoteId : Option QuoteId) (operation : Operation) (m : BlindedMessage) :
    Outcome DbError SignatureRow := do
  Outcome.ensure m.amount.toI64.isSome .database
  .ok ⟨m.blindedSecret, m.amount, m.keysetId, none, quoteId, some operation⟩

def insertMessages (rows : List SignatureRow) : DbTx Unit :=
  Tx.writeOr .duplicate fun db =>
    (db.blindSignatures.insertAll? rows).map fun t => { db with blindSignatures := t }

/-- `add_blinded_messages`. -/
def addBlindedMessages (quoteId : Option QuoteId) (messages : List BlindedMessage)
    (operation : Operation) : DbTx Unit := do
  let rows ← Tx.lift (messages.mapM (messageRow quoteId operation))
  insertMessages rows

/-- The rows that `delete_blinded_messages` deletes. -/
def unsigned (secrets : List PublicKey) (r : SignatureRow) : Bool :=
  r.blindedMessage ∈ secrets ∧ r.c = none

/-- `delete_blinded_messages`. -/
def deleteBlindedMessages (secrets : List PublicKey) : DbTx Unit :=
  if secrets = [] then pure ()
  else Tx.write fun db => { db with blindSignatures := db.blindSignatures.delete (unsigned secrets) }

def signRow (message : PublicKey) (sig : BlindSignature) (r : SignatureRow) : SignatureRow :=
  if r.blindedMessage = message then { r with c := some sig.c, amount := sig.amount } else r

theorem signRow_key (message : PublicKey) (sig : BlindSignature) (r : SignatureRow) :
    (signRow message sig r).blindedMessage = r.blindedMessage := by
  unfold signRow
  split <;> rfl

/-- One round of `add_blind_signatures`. -/
def addBlindSignature (quoteId : Option QuoteId) (entry : PublicKey × BlindSignature) :
    DbTx Unit := do
  let existing ← Tx.read fun db => db.blindSignatures.find? entry.1
  match existing with
  | none =>
      let row : SignatureRow :=
        ⟨entry.1, entry.2.amount, entry.2.keysetId, some entry.2.c, quoteId, none⟩
      insertMessages [row]
  | some r =>
      if r.c = none then
        Tx.write fun db =>
          { db with
            blindSignatures :=
              db.blindSignatures.update (signRow entry.1 entry.2) (signRow_key entry.1 entry.2) }
      else Tx.fail .duplicate

/-- `add_blind_signatures`. -/
def addBlindSignatures (messages : List PublicKey) (signatures : List BlindSignature)
    (quoteId : Option QuoteId) : DbTx Unit := do
  Tx.ensure (messages.length = signatures.length) .internal
  (messages.zip signatures).forM (addBlindSignature quoteId)

/-- `get_blind_signatures`, reduced to the question whether one of the messages is signed. -/
def anySigned (messages : List PublicKey) : DbTx Bool :=
  Tx.read fun db => db.blindSignatures.rows.any fun r => r.blindedMessage ∈ messages ∧ r.c.isSome

/-! ## Mint quotes -/

def setPaid (id : QuoteId) (amount : Amount) (q : MintQuote) : MintQuote :=
  if q.id = id then { q with amountPaid := amount } else q

theorem setPaid_id (id : QuoteId) (amount : Amount) (q : MintQuote) :
    (setPaid id amount q).id = q.id := by
  unfold setPaid
  split <;> rfl

def setIssued (id : QuoteId) (amount : Amount) (q : MintQuote) : MintQuote :=
  if q.id = id then { q with amountIssued := amount } else q

theorem setIssued_id (id : QuoteId) (amount : Amount) (q : MintQuote) :
    (setIssued id amount q).id = q.id := by
  unfold setIssued
  split <;> rfl

def insertPayment (row : PaymentRow) : DbTx Unit :=
  Tx.writeOr .duplicate fun db =>
    (db.payments.insert? row).map fun t => { db with payments := t }

/-- `increment_mint_quote_amount_paid`; a missing quote counts from zero. -/
def incrementMintQuoteAmountPaid (quoteId : QuoteId) (amount : Amount) (paymentId : String) :
    DbTx Amount := do
  Tx.ensure (amount ≠ .zero) .duplicate
  let seen ← Tx.read fun db => (db.payments.find? paymentId).isSome
  Tx.ensure (!seen) .duplicate
  let current ← Tx.read fun db => (db.mintQuotes.find? quoteId).map MintQuote.amountPaid
  let paid ← Tx.lift (Outcome.ofOption .amountOverflow ((current.getD .zero).checkedAdd amount))
  Tx.ensure (current = none ∨ paid.toI64.isSome) .database
  Tx.write fun db =>
    { db with mintQuotes := db.mintQuotes.update (setPaid quoteId paid) (setPaid_id quoteId paid) }
  Tx.ensure amount.toI64.isSome .database
  insertPayment ⟨quoteId, paymentId, amount⟩
  pure paid

/-- `increment_mint_quote_amount_issued`, which refuses to issue more than was paid. -/
def incrementMintQuoteAmountIssued (quoteId : QuoteId) (amount : Amount) : DbTx Amount := do
  let found ← Tx.read fun db => db.mintQuotes.find? quoteId
  let quote ← Tx.lift (Outcome.ofOption .quoteNotFound found)
  let issued ← Tx.lift (Outcome.ofOption .amountOverflow (quote.amountIssued.checkedAdd amount))
  Tx.ensure (issued ≤ quote.amountPaid) .internal
  Tx.ensure issued.toI64.isSome .database
  Tx.write fun db =>
    { db with
      mintQuotes := db.mintQuotes.update (setIssued quoteId issued) (setIssued_id quoteId issued)
      issued := db.issued ++ [⟨quoteId, amount⟩] }
  pure issued

/-- `add_mint_quote`: a new quote starts unpaid, and an amount beyond the column is dropped. -/
def addMintQuote (quote : MintQuote) : DbTx Unit := do
  let taken ← Tx.read fun db =>
    db.mintQuotes.rows.any fun q => q.requestLookupId.toText = quote.requestLookupId.toText
  Tx.ensure (!taken) .duplicate
  Tx.writeOr .duplicate fun db =>
    (db.mintQuotes.insert? { quote with
      amount := quote.amount.filter fun a => a.toI64.isSome
      amountPaid := .zero
      amountIssued := .zero }).map fun t => { db with mintQuotes := t }

/-! ## Melt quotes -/

/-- `add_melt_quote`. -/
def addMeltQuote (quote : MeltQuote) : DbTx Unit := do
  let taken ← Tx.read fun db => db.meltQuotes.rows.any fun q =>
    q.requestLookupId.isSome ∧
      q.requestLookupId.map PaymentIdentifier.toText =
        quote.requestLookupId.map PaymentIdentifier.toText
  Tx.ensure (!taken) .duplicate
  Tx.ensure (quote.amount.toI64.isSome ∧ quote.feeReserve.toI64.isSome) .database
  Tx.writeOr .duplicate fun db =>
    (db.meltQuotes.insert? quote).map fun t => { db with meltQuotes := t }

/-- `add_melt_request`. -/
def addMeltRequest (quoteId : QuoteId) (inputsAmount inputsFee : Amount) : DbTx Unit := do
  Tx.ensure (inputsAmount.toI64.isSome ∧ inputsFee.toI64.isSome) .database
  Tx.writeOr .duplicate fun db =>
    (db.meltRequests.insert? ⟨quoteId, inputsAmount, inputsFee⟩).map fun t =>
      { db with meltRequests := t }

/-- A blinded message that is reserved for the change of a melt. -/
def reservedFor (quoteId : QuoteId) (r : SignatureRow) : Bool :=
  r.quoteId = some quoteId ∧ r.c = none

/-- The stored melt request with its unsigned change outputs. -/
structure MeltRequestInfo where
  inputsAmount : Amount
  inputsFee : Amount
  changeOutputs : List BlindedMessage
deriving DecidableEq, Repr

/-- `get_melt_request_and_blinded_messages`. -/
def getMeltRequestAndBlindedMessages (quoteId : QuoteId) : DbTx (Option MeltRequestInfo) :=
  Tx.read fun db => (db.meltRequests.find? quoteId).map fun row =>
    ⟨row.inputsAmount, row.inputsFee,
      (db.blindSignatures.rows.filter (reservedFor quoteId)).map fun r =>
        ⟨r.amount, r.keysetId, r.blindedMessage⟩⟩

/-- The database after `delete_melt_request`. -/
def withoutMeltRequest (quoteId : QuoteId) (db : Db) : Db :=
  { db with
    meltRequests := db.meltRequests.delete fun row => row.quoteId = quoteId
    blindSignatures := db.blindSignatures.delete (reservedFor quoteId) }

/-- `delete_melt_request`. -/
def deleteMeltRequest (quoteId : QuoteId) : DbTx Unit := Tx.write (withoutMeltRequest quoteId)

def setMeltState (id : QuoteId) (state : MeltQuoteState) (q : MeltQuote) : MeltQuote :=
  if q.id = id then { q with state := state } else q

theorem setMeltState_id (id : QuoteId) (state : MeltQuoteState) (q : MeltQuote) :
    (setMeltState id state q).id = q.id := by
  unfold setMeltState
  split <;> rfl

/-- `update_melt_quote_state`, which returns the state before and the quote after. -/
def updateMeltQuoteState (quoteId : QuoteId) (state : MeltQuoteState) :
    DbTx (MeltQuoteState × MeltQuote) := do
  let found ← Tx.read fun db => (db.meltQuotes.find? quoteId).filter fun q => q.state ≠ state
  let quote ← Tx.lift (Outcome.ofOption .quoteNotFound found)
  Tx.lift ((checkMeltQuoteStateTransition quote.state state).mapErr DbError.ofState)
  Tx.write fun db =>
    { db with
      meltQuotes :=
        db.meltQuotes.update (setMeltState quoteId state) (setMeltState_id quoteId state) }
  if state = .unpaid ∨ state = .failed then deleteMeltRequest quoteId else pure ()
  pure (quote.state, { quote with state := state })

def setLookupId (id : QuoteId) (lookup : PaymentIdentifier) (q : MeltQuote) : MeltQuote :=
  if q.id = id then { q with requestLookupId := some lookup } else q

theorem setLookupId_id (id : QuoteId) (lookup : PaymentIdentifier) (q : MeltQuote) :
    (setLookupId id lookup q).id = q.id := by
  unfold setLookupId
  split <;> rfl

/-- `update_melt_quote_request_lookup_id`; its caller ignores a violated constraint. -/
def updateMeltQuoteRequestLookupId (quoteId : QuoteId) (lookup : PaymentIdentifier) :
    DbTx Unit :=
  Tx.write fun db =>
    if db.meltQuotes.rows.any (fun q =>
        q.id ≠ quoteId ∧ q.requestLookupId.map PaymentIdentifier.toText = some lookup.toText) then
      db
    else
      { db with
        meltQuotes :=
          db.meltQuotes.update (setLookupId quoteId lookup) (setLookupId_id quoteId lookup) }

/-! ## Sagas -/

/-- `add_saga`. -/
def addSaga (saga : Saga) : DbTx Unit :=
  Tx.writeOr .duplicate fun db => (db.sagas.insert? saga).map fun t => { db with sagas := t }

/-- The database after `delete_saga`. -/
def withoutSaga (operationId : Uuid) (db : Db) : Db :=
  { db with sagas := db.sagas.delete fun saga => saga.operationId = operationId }

/-- `delete_saga`. -/
def deleteSaga (operationId : Uuid) : DbTx Unit := Tx.write (withoutSaga operationId)

end Db

end Cdk
