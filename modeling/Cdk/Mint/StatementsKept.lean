import Cdk.Lib.Growth
import Cdk.Mint.System
import Cdk.Mint.Transactions

/-!
# What the transactions of the mint keep to

A relation that every statement of the database keeps to is kept to by the
transactions of the mint, and so by its steps. The requests for the signatures of
a mint quote stand apart: they alone add outputs of their own kind.
-/

namespace Cdk

open Lib

namespace Db

/-- Every statement keeps to a relation; outputs of mint quotes are not added. -/
structure KeptBy (R : Db → Db → Prop) : Prop where
  addProofs : ∀ env proofs quoteId operation,
    Tx.KeepsTo R (addProofs env proofs quoteId operation)
  updateProofsStates : ∀ ys new, Tx.KeepsTo R (updateProofsStates ys new)
  removeProofs : ∀ ys, Tx.KeepsTo R (removeProofs ys)
  addBlindedMessages : ∀ quoteId messages operation, operation.kind ≠ .mint →
    Tx.KeepsTo R (addBlindedMessages quoteId messages operation)
  deleteBlindedMessages : ∀ secrets, Tx.KeepsTo R (deleteBlindedMessages secrets)
  addBlindSignatures : ∀ messages signatures quoteId,
    Tx.KeepsTo R (addBlindSignatures messages signatures quoteId)
  incrementMintQuoteAmountPaid : ∀ quoteId amount paymentId,
    Tx.KeepsTo R (incrementMintQuoteAmountPaid quoteId amount paymentId)
  addMintQuote : ∀ quote, Tx.KeepsTo R (addMintQuote quote)
  addMeltQuote : ∀ quote, Tx.KeepsTo R (addMeltQuote quote)
  addMeltRequest : ∀ quoteId inputsAmount inputsFee,
    Tx.KeepsTo R (addMeltRequest quoteId inputsAmount inputsFee)
  updateMeltQuoteState : ∀ quoteId state, Tx.KeepsTo R (updateMeltQuoteState quoteId state)
  updateMeltQuoteRequestLookupId : ∀ quoteId lookup,
    Tx.KeepsTo R (updateMeltQuoteRequestLookupId quoteId lookup)
  withoutMeltRequest : ∀ quoteId db, R db (withoutMeltRequest quoteId db)
  addSaga : ∀ saga, Tx.KeepsTo R (addSaga saga)
  deleteSagaUnless : ∀ keep operationId db, R db (deleteSagaUnless keep operationId db)

end Db

/-! ## Transactions -/

section Transactions

variable {env : Env} {keysets : Keysets} {backends : Backends} {R : Db → Db → Prop}

/-- A call under a writer keeps to what it keeps to without one. -/
theorem guarded_keeps {α : Type} {writer : ProofWriter} {x : MintTx α}
    (hx : Tx.KeepsTo R x) : Tx.KeepsTo R (guarded writer x) :=
  fun db a db' h => hx db a db' (guarded_ok.mp h)

theorem Fault.guard_keeps {α : Type} (fault : Fault) (step : SwapStep) {x : MintTx α}
    (hx : Tx.KeepsTo R x) : Tx.KeepsTo R (fault.guard step x) :=
  fun db a db' h => hx db a db' (Fault.guard_ok h)

variable [IsPreorder Db R]

theorem verifyOutputs_keeps (outputs : List BlindedMessage) :
    Tx.KeepsTo R (verifyOutputs keysets outputs) :=
  .of_eq fun _ _ _ h => (verifyOutputs_ok h).1.symm

theorem attempt_keeps {α : Type} {x : DbTx α} (hx : Tx.KeepsTo R x) :
    Tx.KeepsTo R (attempt x) := by
  intro db u db' h
  unfold attempt at h
  split at h
  next hok =>
    cases h
    exact hx _ _ _ hok
  next =>
    cases h
    exact refl_of R _
  next => cases h

variable (hk : Db.KeptBy R)

include hk

/-! ### Mint quotes -/

theorem handlePaymentNotification_keeps (response : WaitPaymentResponse) :
    Tx.KeepsTo R (handlePaymentNotification response) := by
  refine (Tx.KeepsTo.ensure _ _).bind fun _ => (Tx.KeepsTo.read _).bind fun found => ?_
  cases found with
  | none => exact .pure ()
  | some quote =>
      refine (Tx.KeepsTo.read _).bind fun seen => .ite (.pure ()) ?_
      refine (Tx.KeepsTo.lift _).bind fun amount => (Tx.KeepsTo.ensure _ _).bind fun _ => ?_
      exact (hk.incrementMintQuoteAmountPaid _ _ _).mapErr.bind fun _ => .pure ()

theorem creditPayment_keeps (checked : CheckedQuote) (payment : WaitPaymentResponse) :
    Tx.KeepsTo R (creditPayment checked payment) := by
  refine .ite (.pure checked) ?_
  refine (Tx.KeepsTo.lift _).bind fun amount => (Tx.KeepsTo.lift _).bind fun paid => ?_
  exact (hk.incrementMintQuoteAmountPaid _ _ _).mapErr.bind fun _ => .pure _

theorem checkMintQuotePaid_keeps (answer : StatusAnswer) (quote : MintQuote) :
    Tx.KeepsTo R (checkMintQuotePaid answer quote) := by
  refine .ite (.pure ()) ?_
  refine (Tx.KeepsTo.lift _).bind fun status => (Tx.KeepsTo.lift _).bind fun payments => ?_
  refine .ite (.pure ()) ?_
  refine (Tx.KeepsTo.read _).bind fun found => (Tx.KeepsTo.lift _).bind fun stored => ?_
  refine (Tx.KeepsTo.read _).bind fun seen => .ite (.pure ()) ?_
  exact (Tx.KeepsTo.foldlM (creditPayment_keeps hk) _ _).bind fun _ => .pure ()

/-! ### Swaps -/

theorem startSwap_keeps (now : Nat) (operationId : Uuid) (request : SwapRequest) :
    Tx.KeepsTo R (startSwap env keysets now operationId request) := by
  refine (Tx.KeepsTo.lift _).bind fun verification => ?_
  refine .bind ?_ fun _ => ?_
  · refine (verifyOutputs_keeps _).bind fun output => (Tx.KeepsTo.ensure _ _).bind fun _ => ?_
    refine (Tx.KeepsTo.lift _).bind fun fees => (Tx.KeepsTo.lift _).bind fun rest => ?_
    exact .ensure _ _
  · refine (hk.addProofs _ _ _ _).mapErr.bind fun _ => (Tx.KeepsTo.lift _).bind fun ys => ?_
    refine (hk.updateProofsStates _ _).mapErr.bind fun original => ?_
    refine (Tx.KeepsTo.ensure _ _).bind fun _ => (Tx.KeepsTo.lift _).bind fun _ => ?_
    refine (hk.addBlindedMessages _ _ _ (by simp)).mapErr.bind fun _ => ?_
    exact (hk.addSaga _).mapErr.bind fun _ => .pure _

theorem storeSwap_keeps (fault : Fault) (setup : SwapSetup)
    (signatures : List BlindSignature) :
    Tx.KeepsTo R (storeSwap fault setup signatures) := by
  refine (Fault.guard_keeps _ _ (hk.addBlindSignatures _ _ _).mapErr).bind fun _ => ?_
  exact (Fault.guard_keeps _ _ (hk.updateProofsStates _ _).mapErr).bind fun _ => .pure ()

theorem removeSwapSetup_keeps (blindedSecrets ys : List PublicKey) :
    Tx.KeepsTo R (removeSwapSetup blindedSecrets ys) :=
  (hk.deleteBlindedMessages _).mapErr.bind fun _ => (hk.removeProofs _).mapErr

/-! ### Melts -/

theorem writerUpdate_keeps (writer : ProofWriter) (ys : List PublicKey) (new : State) :
    Tx.KeepsTo R (writer.updateProofsStates ys new) := by
  refine (hk.updateProofsStates _ _).mapErr.bind fun original => ?_
  exact (Tx.KeepsTo.ensure _ _).bind fun _ => (Tx.KeepsTo.lift _).bind fun _ => .pure _

theorem writerAddProofs_keeps (proofs : List Proof) (quoteId : QuoteId)
    (operation : Operation) :
    Tx.KeepsTo R (ProofWriter.addProofs env proofs quoteId operation) := by
  refine (guarded_keeps (hk.addProofs _ _ _ _).mapErr).bind fun _ => ?_
  refine (guarded_keeps (.lift _)).bind fun ys => ?_
  exact guarded_keeps (writerUpdate_keeps hk _ _ _)

theorem verifyMeltQuote_keeps (input : Verification) (request : MeltRequest) :
    Tx.KeepsTo R (verifyMeltQuote env keysets input request) := by
  refine (hk.updateMeltQuoteState _ _).mapErr.bind fun updated => ?_
  refine (Tx.KeepsTo.ensure _ _).bind fun _ => (Tx.KeepsTo.lift _).bind fun _ => ?_
  refine (Tx.KeepsTo.lift _).bind fun fee => (Tx.KeepsTo.lift _).bind fun reserved => ?_
  refine (Tx.KeepsTo.lift _).bind fun required => (Tx.KeepsTo.ensure _ _).bind fun _ => ?_
  refine (Tx.KeepsTo.lift _).bind fun _ => .bind (.ite (.pure ()) ?_) fun _ => .pure _
  exact (verifyOutputs_keeps _).bind fun outputs => .ensure _ _

theorem recordMeltRequest_keeps (operationId : Uuid) (request : MeltRequest) :
    Tx.KeepsTo R (recordMeltRequest keysets operationId request) := by
  refine (Tx.KeepsTo.lift _).bind fun fee => (Tx.KeepsTo.lift _).bind fun amount => ?_
  refine (hk.addMeltRequest _ _ _).mapErr.bind fun _ => ?_
  exact (hk.addBlindedMessages _ _ _ (by simp)).mapErr

theorem handleInternalMeltMint_keeps (quote : MeltQuote) (request : MeltRequest) :
    Tx.KeepsTo R (handleInternalMeltMint quote request) := by
  refine (Tx.KeepsTo.read _).bind fun found => ?_
  cases found with
  | none => exact .pure none
  | some mintQuote =>
      refine (Tx.KeepsTo.ensure _ _).bind fun _ => (Tx.KeepsTo.lift _).bind fun inputs => ?_
      refine (Tx.KeepsTo.ensure _ _).bind fun _ => ?_
      exact (hk.incrementMintQuoteAmountPaid _ _ _).mapErr.bind fun _ => .pure _

theorem payQuote_keeps (quoteId : QuoteId) (spent : Amount) :
    Tx.KeepsTo R (payQuote keysets quoteId spent) := by
  refine (hk.updateMeltQuoteState _ _).mapErr.bind fun _ => ?_
  refine (Tx.KeepsTo.read _).mapErr.bind fun found => (Tx.KeepsTo.lift _).bind fun info => ?_
  refine .ite ?_ ?_
  · refine (Tx.KeepsTo.read _).mapErr.bind fun signed => (Tx.KeepsTo.ensure _ _).bind fun _ => ?_
    exact (Tx.KeepsTo.lift _).bind fun messages => .pure _
  · exact (Tx.KeepsTo.write (hk.withoutMeltRequest quoteId)).mapErr.bind fun _ => .pure none

theorem processMeltRequest_keeps (writer : ProofWriter) (quoteId : QuoteId) (spent : Amount) :
    Tx.KeepsTo R (processMeltRequest env keysets writer quoteId spent) := by
  refine .bind ?_ fun burnt => (guarded_keeps (payQuote_keeps hk _ _)).bind fun _ => .pure _
  refine (guarded_keeps ((Tx.KeepsTo.read _).bind fun rows => .lift _).mapErr).bind fun ys => ?_
  refine (guarded_keeps (.lift _)).bind fun _ => ?_
  exact guarded_keeps (writerUpdate_keeps hk _ _ _)

theorem startMelt_keeps (now : Nat) (operationId : Uuid) (request : MeltRequest) :
    Tx.KeepsTo R (startMelt env keysets backends now operationId request) := by
  refine .bind ?_ fun reserved =>
    (guarded_keeps (handleInternalMeltMint_keeps hk _ _)).bind fun internal => ?_
  · refine (guarded_keeps (.lift _)).bind fun input => ?_
    refine (writerAddProofs_keeps hk _ _ _).bind fun writer => ?_
    refine (guarded_keeps (verifyMeltQuote_keeps hk _ _)).bind fun quote => ?_
    exact (guarded_keeps (recordMeltRequest_keeps hk _ _)).bind fun _ => .pure _
  · cases internal with
    | some spent => exact (processMeltRequest_keeps hk _ _ _).bind fun settled => .pure _
    | none => exact (guarded_keeps (.lift _)).bind fun _ => .pure _

theorem settleExternal_keeps (writer : ProofWriter) (quote : MeltQuote)
    (response : MakePaymentResponse) :
    Tx.KeepsTo R (settleExternal env keysets writer quote response) := by
  have hrest : Tx.KeepsTo R
      (processMeltRequest env keysets writer quote.id (amountSpent quote response)) :=
    processMeltRequest_keeps hk _ _ _
  refine .ite ?_ hrest
  exact (guarded_keeps (hk.updateMeltQuoteRequestLookupId _ _).mapErr).bind fun _ => hrest

theorem storeChange_keeps (change : PendingChange) (signatures : List BlindSignature) :
    Tx.KeepsTo R (storeChange change signatures) :=
  (hk.addBlindSignatures _ _ _).mapErr.bind fun _ =>
    (Tx.KeepsTo.write (hk.withoutMeltRequest change.quoteId)).mapErr

theorem resetProofs_keeps (writer : ProofWriter) :
    Tx.KeepsTo R writer.resetProofsToOriginalState := by
  refine .bind (.forM (fun state => ?_) _) fun _ => (hk.removeProofs _).mapErr
  exact (hk.updateProofsStates _ _).mapErr.bind fun _ => .pure ()

theorem checkPendingMeltQuotes_keeps (check : PaymentIdentifier → Option MeltQuoteState) :
    Tx.KeepsTo R (checkPendingMeltQuotes backends check) := by
  refine (Tx.KeepsTo.read _).bind fun quotes => .forM (fun quote => ?_) _
  unfold checkPendingMeltQuote
  refine .ite ?_ (.pure ())
  cases quote.requestLookupId with
  | none => exact .pure ()
  | some lookup =>
      dsimp only
      cases check lookup with
      | none => exact .fail _
      | some status => exact attempt_keeps (hk.updateMeltQuoteState _ _)

end Transactions

/-! ## Steps -/

section Steps

variable (env : Env) (backends : Backends) {R : Db → Db → Prop} [IsPreorder Db R]
  (hk : Db.KeptBy R) (w : World)

theorem World.transact_keeps {α : Type} {x : MintTx α} (hx : Tx.KeepsTo R x) :
    R w.db (w.transact x).db := hx.commit w.db

include hk

theorem World.finalizeSwap_keeps (task : SwapTask) (signatures : List BlindSignature)
    (fault : Fault) : R w.db (w.finalizeSwap task signatures fault).db := by
  unfold World.finalizeSwap
  split
  next => exact refl_of R _
  next =>
    split
    next => exact refl_of R _
    next => exact refl_of R _
    next stored h =>
      split
      next => exact refl_of R _
      next =>
        exact trans_of R (storeSwap_keeps hk _ _ _ _ _ _ h) (hk.deleteSagaUnless _ _ stored)

theorem World.startMelt_keeps (now : Nat) (request : MeltRequest) (commitFails : Bool) :
    R w.db (w.startMelt env backends now request commitFails).db := by
  unfold World.startMelt
  split
  next writer start db' h =>
    have hdb := Cdk.startMelt_keeps hk now w.nextId request w.db (writer, start) db' h
    split
    next => exact refl_of R _
    next => split <;> exact hdb
  next => exact refl_of R _
  next => exact refl_of R _

theorem World.payMelt_keeps (task : MeltTask) (quote : MeltQuote) (backend : PaymentBackend)
    (commitFails : Bool) : R w.db (w.payMelt env task quote backend commitFails).db := by
  unfold World.payMelt
  split
  next response _ _ =>
    unfold World.settleMelt
    split
    next writer change db' h =>
      have hdb := settleExternal_keeps hk task.writer quote response w.db (writer, change) db' h
      split
      next => exact refl_of R _
      next => exact hdb
    next => exact refl_of R _
    next => exact refl_of R _
  next => exact refl_of R _
  next => exact refl_of R _

theorem World.signChange_keeps (task : MeltTask) (change : PendingChange)
    (commitFails : Bool) : R w.db (w.signChange env task change commitFails).db := by
  unfold World.signChange
  split
  next signatures _ =>
    split
    next u db' h =>
      have hdb := storeChange_keeps hk change signatures w.db u db' h
      split
      next => exact refl_of R _
      next => exact hdb
    next => exact refl_of R _
  next => exact refl_of R _

/-- A step keeps to the relation if it does where it issues signatures for a mint quote. -/
theorem World.step_keeps (a : Action)
    (hissue : ∀ signing request, a = .issue signing request →
      R w.db (w.issue env signing request).db) :
    R w.db (w.step env backends a).db := by
  cases a with
  | createMintQuote quote => exact w.transact_keeps (hk.addMintQuote _).mapErr
  | createMeltQuote quote => exact w.transact_keeps (hk.addMeltQuote _).mapErr
  | notifyPayment response => exact w.transact_keeps (handlePaymentNotification_keeps hk _)
  | checkPaid quoteId answer =>
      change R w.db (w.checkPaid quoteId answer).db
      unfold World.checkPaid
      split
      next quote _ => exact w.transact_keeps (checkMintQuotePaid_keeps hk answer quote)
      next => exact refl_of R _
  | issue signing request => exact hissue signing request rfl
  | setupSwap now request =>
      change R w.db (w.setupSwap env now request).db
      unfold World.setupSwap
      split
      next setup db' h => exact startSwap_keeps hk _ _ _ _ _ _ h
      next => exact refl_of R _
  | signSwap task fails =>
      simp only [World.step]
      split
      next =>
        unfold World.signSwap
        split <;> exact refl_of R _
      next => exact refl_of R _
  | finalizeSwap task fault =>
      simp only [World.step]
      split
      next signatures _ =>
        split
        next => exact w.finalizeSwap_keeps hk task signatures fault
        next => exact refl_of R _
      next => exact refl_of R _
  | compensate task fails =>
      simp only [World.step]
      split
      next =>
        unfold World.compensate
        split
        next db' h => exact removeSwapSetup_keeps hk _ _ _ _ _ h
        next => split <;> exact refl_of R _
      next => exact refl_of R _
  | deleteSaga task fails =>
      simp only [World.step]
      split
      next => exact hk.deleteSagaUnless _ _ _
      next => exact refl_of R _
  | startMelt now request commitFails => exact w.startMelt_keeps env backends hk now request _
  | payMelt task backend commitFails =>
      simp only [World.step]
      split
      next quote _ =>
        split
        next => exact w.payMelt_keeps env hk task quote backend commitFails
        next => exact refl_of R _
      next => exact refl_of R _
  | signChange task commitFails =>
      simp only [World.step]
      split
      next change _ =>
        split
        next => exact w.signChange_keeps env hk task change commitFails
        next => exact refl_of R _
      next => exact refl_of R _
  | rollback task =>
      simp only [World.step]
      split
      next => exact (resetProofs_keeps hk task.writer).commit w.db
      next => exact refl_of R _
  | restart check =>
      change R w.db (w.restart backends check).db
      unfold World.restart
      split
      next db' h => exact checkPendingMeltQuotes_keeps hk check _ _ _ h
      next => exact refl_of R _
  | rotateKeyset keyset =>
      change R w.db (w.rotateKeyset keyset).db
      unfold World.rotateKeyset
      split <;> exact refl_of R _

end Steps

end Cdk
