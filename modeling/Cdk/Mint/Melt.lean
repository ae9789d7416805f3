import Cdk.Mint.Issue
import Cdk.Mint.SwapSaga

/-!
# Melts

A melt pays a quote with proofs. Its first transaction stores the inputs as
pending, moves the quote to pending and records the request with its change
outputs. A quote that asks for an invoice of the same mint is settled inside
that transaction. Otherwise the transaction is committed, the backend pays, and
a second transaction burns the inputs. Change is signed between two
transactions.

A proof writer remembers what the proofs were before. Unless it is committed,
dropping it rolls the proofs back in a transaction of its own, also when the
call that owned it has failed before its transaction was committed.
-/

namespace Cdk

open Lib

/-! ## The proof writer -/

/-- The proofs of a melt with the states they had before; a proof that the melt has added had
none. -/
abbrev ProofWriter := List (PublicKey × Option State)

/-- A call that has failed with an error, or without one when it has panicked, and the writer
that is dropped with it. -/
structure MeltFailure where
  error : Option Error
  writer : ProofWriter
deriving DecidableEq, Repr

/-- A call that drops a writer when it fails. -/
abbrev GuardedTx := Tx Db MeltFailure

/-- Run a call while a writer is alive. -/
def guarded {α : Type} (writer : ProofWriter) (x : MintTx α) : GuardedTx α := fun db =>
  match x db with
  | .ok r => .ok r
  | .err e => .err ⟨some e, writer⟩
  | .panic => .err ⟨none, writer⟩

@[simp] theorem guarded_ok {α : Type} {writer : ProofWriter} {x : MintTx α} {db db' : Db} {a : α} :
    guarded writer x db = .ok (a, db') ↔ x db = .ok (a, db') := by
  unfold guarded
  cases x db <;> simp

theorem guarded_err {α : Type} {writer : ProofWriter} {x : MintTx α} {db : Db}
    {failure : MeltFailure} (h : guarded writer x db = .err failure) :
    failure.writer = writer := by
  unfold guarded at h
  cases hx : x db <;> rw [hx] at h <;> cases h <;> rfl

/-- A call without an error fails only by a panic. -/
theorem guarded_noErr {α : Type} {writer : ProofWriter} {x : MintTx α} {db : Db}
    {failure : MeltFailure} (hx : Tx.NoErr x db) (h : guarded writer x db = .err failure) :
    failure.error = none := by
  unfold guarded at h
  cases hr : x db with
  | ok r => simp [hr] at h
  | err e => exact absurd hr (hx e)
  | panic =>
      simp only [hr, Outcome.err.injEq] at h
      rw [← h]

namespace ProofWriter

/-- Remember the states of proofs that are not known yet. -/
def record (writer : ProofWriter) (ys : List PublicKey) (original : List (Option State)) :
    ProofWriter :=
  (ys.zip original).foldl (fun w e => if e.1 ∈ w.map Prod.fst then w else w ++ [e]) writer

/-- The states that proofs must not have had before. -/
def checkOriginal (new : State) (original : List (Option State)) : Outcome Error Unit :=
  if some .spent ∈ original ∨ (new = .pending ∧ some .pending ∈ original) then
    .err (if some .pending ∈ original then .tokenPending else .tokenAlreadySpent)
  else .ok ()

/-- `ProofWriter::update_proofs_states`. -/
def updateProofsStates (writer : ProofWriter) (ys : List PublicKey) (new : State) :
    MintTx ProofWriter := do
  let original ← (Db.updateProofsStates ys new).mapErr updateStatesError
  Tx.ensure (ys.length = original.length) .internal
  Tx.lift (checkOriginal new original)
  pure (writer.record ys original)

/-- `ProofWriter::add_proofs` on a new writer. -/
def addProofs (env : Env) (proofs : List Proof) (quoteId : QuoteId) (operation : Operation) :
    GuardedTx ProofWriter := do
  guarded [] ((Db.addProofs env proofs (some quoteId) operation).mapErr addProofsError)
  let ys ← guarded [] (Tx.lift (ysOf env proofs))
  let writer : ProofWriter := ys.map fun y => (y, none)
  guarded writer (updateProofsStates writer ys .pending)

/-- The proofs of a writer that had a given state. -/
def withOriginal (writer : ProofWriter) (state : Option State) : List PublicKey :=
  (writer.filter fun e => e.2 = state).map Prod.fst

/-- `reset_proofs_to_original_state`. -/
def resetProofsToOriginalState (writer : ProofWriter) : MintTx Unit := do
  (((writer.filterMap Prod.snd).dedup).filter fun state => state ≠ .spent).forM fun state => do
    let _ ← (Db.updateProofsStates (writer.withOriginal (some state)) state).mapErr Error.ofDb
  (Db.removeProofs (writer.withOriginal none)).mapErr Error.ofDb

/-- `ProofWriter::rollback`, and the task that a dropped writer spawns. -/
def rollback (writer : ProofWriter) (db : Db) : Outcome Error Unit × Db :=
  Tx.commit (resetProofsToOriginalState writer) db

end ProofWriter

/-! ## The first transaction -/

section Start

variable (env : Env) (keysets : Keysets)

/-- The signature flag of the inputs of a melt. -/
def validateMeltSigFlag (request : MeltRequest) : Outcome Error Unit := do
  let flag ← (enforceSigFlag env request.inputs).mapErr Error.nut11
  if flag.sigFlag = .sigAll then (request.verifySigAll env).mapErr Error.nut11 else .ok ()

/-- The states from which a quote may be melted. -/
def meltable : MeltQuoteState → Outcome Error Unit
  | .unpaid => .ok ()
  | .failed => .ok ()
  | .pending => .err .pendingQuote
  | .paid => .err .paidQuote
  | .unknown => .err .unknownPaymentState

/-- The change outputs of a melt, if there are any. -/
def verifyChangeOutputs (unit : Option CurrencyUnit) (request : MeltRequest) : MintTx Unit :=
  if request.outputs.getD [] = [] then pure ()
  else do
    let outputs ← verifyOutputs keysets (request.outputs.getD [])
    Tx.ensure (unit = outputs.unit) .unsupportedUnit

/-- `Mint::verify_melt_request` after it has added the proofs. -/
def verifyMeltQuote (input : Verification) (request : MeltRequest) : MintTx MeltQuote := do
  let updated ← (Db.updateMeltQuoteState request.quote .pending).mapErr Error.ofDb
  let quote := updated.2
  Tx.ensure (input.unit = some quote.unit) .unitMismatch
  Tx.lift (meltable updated.1)
  let fee ← Tx.lift (getProofsFee keysets request.inputs)
  let reserved ← Tx.lift (quote.amount.add quote.feeReserve)
  let required ← Tx.lift (reserved.add fee)
  Tx.ensure (required ≤ input.amount)
    (.transactionUnbalanced input.amount.toNat quote.amount.toNat
      (fee.toNat + quote.feeReserve.toNat))
  Tx.lift (validateMeltSigFlag env request)
  verifyChangeOutputs keysets input.unit request
  pure quote

/-- Store the request with its change outputs. -/
def recordMeltRequest (operationId : Uuid) (request : MeltRequest) : MintTx Unit := do
  let fee ← Tx.lift (getProofsFee keysets request.inputs)
  let amount ← Tx.lift (Outcome.ofOption .amountOverflow
    (Amount.trySum (request.inputs.map Proof.amount)))
  (Db.addMeltRequest request.quote amount fee).mapErr Error.ofDb
  (Db.addBlindedMessages (some request.quote) (request.outputs.getD [])
    ⟨.melt, operationId⟩).mapErr Error.ofDb

/-- The mint quote that a melt quote pays, if both are of this mint. -/
def internalQuote (quote : MeltQuote) (db : Db) : Option MintQuote :=
  (db.mintQuotes.rows.find? fun q => q.request = quote.request.text).filter fun q =>
    q.unit = quote.unit

/-- Credit a mint quote from the inputs of a melt. -/
def payInternally (quote : MeltQuote) (request : MeltRequest) (mintQuote : MintQuote) :
    MintTx (Option Amount) := do
  Tx.ensure (!mintQuote.closed) .requestAlreadyPaid
  let inputs ← Tx.lift (Outcome.ofOption .amountOverflow
    (Amount.trySum (request.inputs.map Proof.amount)))
  Tx.ensure (mintQuote.amount.all fun amount => amount ≤ inputs) .insufficientFunds
  let _ ← (Db.incrementMintQuoteAmountPaid mintQuote.id quote.amount quote.id.toText).mapErr
    Error.ofDb
  pure (some quote.amount)

/-- `Mint::handle_internal_melt_mint`. -/
def handleInternalMeltMint (quote : MeltQuote) (request : MeltRequest) :
    MintTx (Option Amount) := do
  let found ← Tx.read (internalQuote quote)
  match found with
  | some mintQuote => payInternally quote request mintQuote
  | none => pure none

/-- The amount of an invoice in millisatoshi. -/
def invoiceMsats (quote : MeltQuote) : Outcome Error Amount :=
  match quote.request.amount with
  | some (unit, amount) => (toUnit amount unit .msat).mapErr fun _ => .unsupportedUnit
  | none => do
      let options ← Outcome.ofOption .invoiceAmountUndefined quote.options
      .ok options.amountMsat

/-- `Mint::check_melt_expected_ln_fees`. -/
def checkMeltExpectedLnFees (quote : MeltQuote) (request : MeltRequest) : Outcome Error Unit := do
  let converted ← (toUnit quote.amount quote.unit .msat).toOption
  let quoteMsats ← Outcome.expect converted
  let invoice ← invoiceMsats quote
  let amountToPay ← (toUnit (if quoteMsats < invoice then quoteMsats else invoice) .msat
    quote.unit).mapErr fun _ => Error.unsupportedUnit
  let inputs ← Outcome.ofOption .amountOverflow (Amount.trySum (request.inputs.map Proof.amount))
  let needed ← amountToPay.add quote.feeReserve
  Outcome.ensure (needed ≤ inputs)
    (.transactionUnbalanced inputs.toNat amountToPay.toNat quote.feeReserve.toNat)

/-- The payment backends that a mint is configured with. -/
abbrev Backends := CurrencyUnit → PaymentMethod → Bool

/-- The last checks before a quote is handed to a backend. -/
def checkExternal (backends : Backends) (quote : MeltQuote) (request : MeltRequest) :
    Outcome Error Unit := do
  if quote.unit = .sat ∨ quote.unit = .msat then
    (checkMeltExpectedLnFees quote request).mapErr fun _ => Error.internal
  else .ok ()
  .ensure (backends quote.unit quote.paymentMethod) .unsupportedUnit

end Start

/-! ## Burning the inputs -/

/-- Change that has been promised: all change outputs of the quote, and the first of them with
the amounts to sign. -/
structure PendingChange where
  quoteId : QuoteId
  outputs : List BlindedMessage
  messages : List BlindedMessage
deriving DecidableEq, Repr

section Settle

variable (env : Env) (keysets : Keysets)

/-- The denominations of the change: those of the keyset of the first output when it is active,
and powers of two otherwise. -/
def changeDenominations (outputs : List BlindedMessage) : List Amount :=
  match keysets.find? fun k => k.active ∧ some k.id = outputs.head?.map BlindedMessage.keysetId with
  | some keyset => keyset.amounts
  | none => (List.range 32).filterMap fun i => Amount.ofNat? (2 ^ i)

/-- The amounts of the change, largest first when there are not enough outputs. -/
def changeAmounts (info : Db.MeltRequestInfo) (spent : Amount) :
    Outcome Error (List Amount) := do
  let rest ← info.inputsAmount.sub spent
  let target ← rest.sub info.inputsFee
  let amounts ← target.split (changeDenominations keysets info.changeOutputs)
  .ok (if info.changeOutputs.length < amounts.length then
    amounts.mergeSort fun a b => b ≤ a else amounts)

/-- The change outputs with their amounts. -/
def changeMessages (info : Db.MeltRequestInfo) (spent : Amount) :
    Outcome Error (List BlindedMessage) := do
  let amounts ← changeAmounts keysets info spent
  .ok ((amounts.zip info.changeOutputs).map fun e => { e.2 with amount := e.1 })

/-- Mark all proofs of a quote spent; a quote without proofs fails an assertion. -/
def burnInputs (writer : ProofWriter) (quoteId : QuoteId) : GuardedTx ProofWriter := do
  let ys ← guarded writer ((Db.getProofYsByQuoteId env quoteId).mapErr Error.ofDb)
  guarded writer (Tx.lift (Outcome.expect (if ys = [] then none else some ())))
  guarded writer (writer.updateProofsStates ys .spent)

/-- Mark the quote paid and work out its change. -/
def payQuote (quoteId : QuoteId) (spent : Amount) : MintTx (Option PendingChange) := do
  let _ ← (Db.updateMeltQuoteState quoteId .paid).mapErr Error.ofDb
  let found ← (Db.getMeltRequestAndBlindedMessages quoteId).mapErr Error.ofDb
  let info ← Tx.lift (Outcome.ofOption .unknownQuote found)
  if spent < info.inputsAmount ∧ info.changeOutputs ≠ [] then do
    let signed ← (Db.anySigned (info.changeOutputs.map BlindedMessage.blindedSecret)).mapErr
      Error.ofDb
    Tx.ensure (!signed) .blindedMessageAlreadySigned
    let messages ← Tx.lift (changeMessages keysets info spent)
    pure (some ⟨quoteId, info.changeOutputs, messages⟩)
  else do
    (Db.deleteMeltRequest quoteId).mapErr Error.ofDb
    pure none

/-- `Mint::process_melt_request` up to the commit of its transaction. -/
def processMeltRequest (writer : ProofWriter) (quoteId : QuoteId) (spent : Amount) :
    GuardedTx (ProofWriter × Option PendingChange) := do
  let writer ← burnInputs env writer quoteId
  let change ← guarded writer (payQuote keysets quoteId spent)
  pure (writer, change)

/-- The transaction that stores the signatures on the change. -/
def storeChange (change : PendingChange) (signatures : List BlindSignature) : MintTx Unit := do
  (Db.addBlindSignatures
    ((change.outputs.take signatures.length).map BlindedMessage.blindedSecret) signatures
    (some change.quoteId)).mapErr Error.ofDb
  (Db.deleteMeltRequest change.quoteId).mapErr Error.ofDb

end Settle

/-! ## The payment -/

/-- How far the first transaction of a melt takes it. -/
inductive MeltStart where
  /-- The quote is settled, up to its change. -/
  | settled (change : Option PendingChange)
  /-- The quote goes to a backend. -/
  | external (quote : MeltQuote)
deriving DecidableEq, Repr

section Melt

variable (env : Env) (keysets : Keysets) (backends : Backends)

/-- Settle inside the first transaction or prepare the payment. -/
def settleOrPay (writer : ProofWriter) (quote : MeltQuote) (request : MeltRequest) :
    Option Amount → GuardedTx (ProofWriter × MeltStart)
  | some spent => do
      let settled ← processMeltRequest env keysets writer quote.id spent
      pure (settled.1, .settled settled.2)
  | none => do
      guarded writer (Tx.lift (checkExternal backends quote request))
      pure (writer, .external quote)

/-- Store the inputs as pending, move the quote to pending and record the request. -/
def reserveMelt (now : Nat) (operationId : Uuid) (request : MeltRequest) :
    GuardedTx (ProofWriter × MeltQuote) := do
  let input ← guarded [] (Tx.lift (verifyInputs env keysets now request.inputs))
  let writer ← ProofWriter.addProofs env request.inputs request.quote ⟨.melt, operationId⟩
  let quote ← guarded writer (verifyMeltQuote env keysets input request)
  guarded writer (recordMeltRequest keysets operationId request)
  pure (writer, quote)

/-- The first transaction of `Mint::melt`. -/
def startMelt (now : Nat) (operationId : Uuid) (request : MeltRequest) :
    GuardedTx (ProofWriter × MeltStart) := do
  let reserved ← reserveMelt env keysets now operationId request
  let internal ← guarded reserved.1 (handleInternalMeltMint reserved.2 request)
  settleOrPay env keysets backends reserved.1 reserved.2 request internal

end Melt

/-- The errors of a backend that a melt tells apart. -/
inductive PaymentError where
  | invoiceAlreadyPaid
  | other
deriving DecidableEq, Repr

structure MakePaymentResponse where
  paymentLookupId : PaymentIdentifier
  status : MeltQuoteState
  totalSpent : Amount
  unit : CurrencyUnit
deriving DecidableEq, Repr

/-- The answers of a backend to one payment; a check that fails has no answer. -/
structure PaymentBackend where
  makePayment : Except PaymentError MakePaymentResponse
  checkOutgoingPayment : PaymentIdentifier → Option MakePaymentResponse

/-- What a melt does with the answers of the backend. -/
inductive PaymentDecision where
  /-- The payment is made: burn the inputs. -/
  | settle (response : MakePaymentResponse)
  /-- The writer is rolled back before the call returns. -/
  | rollback
  /-- The writer is dropped by an early return. -/
  | drop (error : Error)
  /-- The writer is committed: the inputs stay pending. -/
  | hold (error : Error)
deriving DecidableEq, Repr

/-- The decision on the last status of a payment. -/
def decideByStatus (response : MakePaymentResponse) : PaymentDecision :=
  match response.status with
  | .paid => .settle response
  | .unpaid => .rollback
  | .unknown => .rollback
  | .failed => .rollback
  | .pending => .hold .pendingQuote

/-- A check that contradicts the answer to the payment holds the inputs. -/
def decideByCheck (check : MakePaymentResponse) : PaymentDecision :=
  if check.status = .paid then .hold .internal else decideByStatus check

/-- The branches of `Mint::melt` after its call to the backend. -/
def decidePayment (backend : PaymentBackend) (quote : MeltQuote) : PaymentDecision :=
  match backend.makePayment with
  | .ok pay =>
      if pay.status = .unknown ∨ pay.status = .failed then
        match backend.checkOutgoingPayment pay.paymentLookupId with
        | none => .drop .internal
        | some check => decideByCheck check
      else decideByStatus pay
  | .error .invoiceAlreadyPaid => .drop .requestAlreadyPaid
  | .error .other =>
      match quote.requestLookupId with
      | none => .drop .internal
      | some lookup =>
          match backend.checkOutgoingPayment lookup with
          | none => .hold .internal
          | some check => decideByCheck check

/-- An offer cannot be paid in parts; the payment is not handed to the backend. -/
def outgoingPaymentOptions (quote : MeltQuote) : Outcome Error Unit :=
  match quote.request.offer, quote.options with
  | true, some (.mpp _) => .err .unsupportedUnit
  | _, _ => .ok ()

section Finish

variable (env : Env) (keysets : Keysets)

/-- The amount that a payment has cost, zero when its unit cannot be converted. -/
def amountSpent (quote : MeltQuote) (response : MakePaymentResponse) : Amount :=
  (toUnit response.totalSpent response.unit quote.unit).getD .zero

/-- The second transaction of an external melt. -/
def settleExternal (writer : ProofWriter) (quote : MeltQuote) (response : MakePaymentResponse) :
    GuardedTx (ProofWriter × Option PendingChange) := do
  if some response.paymentLookupId ≠ quote.requestLookupId then
    guarded writer ((Db.updateMeltQuoteRequestLookupId quote.id
      response.paymentLookupId).mapErr Error.ofDb)
  else pure ()
  processMeltRequest env keysets writer quote.id (amountSpent quote response)

/-- The result of a call that has failed. -/
def MeltFailure.result (failure : MeltFailure) : Outcome Error Unit :=
  match failure.error with
  | some e => .err e
  | none => .panic

/-- Drop a writer with the call that owns it. -/
def failWith (result : Outcome Error Unit) (writer : ProofWriter) (db : Db) :
    Outcome Error Unit × Db :=
  (result, (writer.rollback db).2)

/-- Sign the change and store it. -/
def finishChange (writer : ProofWriter) (change : Option PendingChange) (db : Db) :
    Outcome Error Unit × Db :=
  match change with
  | none => (.ok (), db)
  | some change =>
      match blindSign env keysets change.messages with
      | .err e => failWith (.err e) writer db
      | .panic => failWith .panic writer db
      | .ok signatures =>
          match storeChange change signatures db with
          | .err e => failWith (.err e) writer db
          | .panic => failWith .panic writer db
          | .ok (_, stored) => (.ok (), stored)

/-- Burn the inputs of a melt whose payment has been made. -/
def finishPaid (writer : ProofWriter) (quote : MeltQuote) (response : MakePaymentResponse)
    (db : Db) : Outcome Error Unit × Db :=
  match settleExternal env keysets writer quote response db with
  | .ok ((writer, change), settled) => finishChange env keysets writer change settled
  | .err failure => failWith failure.result failure.writer db
  | .panic => (.panic, db)

/-- Hand a quote to the backend and act on its answers. -/
def payExternally (backend : PaymentBackend) (writer : ProofWriter) (quote : MeltQuote)
    (db : Db) : Outcome Error Unit × Db :=
  match outgoingPaymentOptions quote with
  | .err e => failWith (.err e) writer db
  | .panic => failWith .panic writer db
  | .ok _ =>
      match decidePayment backend quote with
      | .settle response => finishPaid env keysets writer quote response db
      | .hold e => (.err e, db)
      | .drop e => failWith (.err e) writer db
      | .rollback =>
          match writer.rollback db with
          | (.ok _, restored) => (.err .paymentFailed, restored)
          | (failed, same) => (failed, same)

/-- `Mint::melt`, with the task of a dropped writer run before anything else. -/
def melt (backends : Backends) (backend : PaymentBackend) (now : Nat) (operationId : Uuid)
    (request : MeltRequest) (db : Db) : Outcome Error Unit × Db :=
  match startMelt env keysets backends now operationId request db with
  | .ok ((writer, .settled change), db') => finishChange env keysets writer change db'
  | .ok ((writer, .external quote), db') => payExternally env keysets backend writer quote db'
  | .err failure => failWith failure.result failure.writer db
  | .panic => (.panic, db)

end Finish

end Cdk
