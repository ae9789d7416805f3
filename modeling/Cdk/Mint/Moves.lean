import Cdk.Mint.System
import Cdk.Mint.Transactions

/-!
# What a step can do

The step function of the mint is inverted once: every step is one of the moves
below, with what its transaction has done stated over the tables. Invariants
are proved over the moves and never open the step function.
-/

namespace Cdk

open Lib

/-! ## Start-up -/

/-- The check of pending quotes has changed states of quotes and dropped requests. -/
structure MeltsChecked (db db' : Db) : Prop where
  known : ∀ i, db'.meltState i = none ↔ db.meltState i = none
  paid : ∀ i, db.meltState i = some .paid → db'.meltState i = some .paid
  kept : ∀ r ∈ db.blindSignatures.rows, r ∈ db'.blindSignatures.rows ∨
    r.c = none ∧ r.quoteId.isSome
  origin : ∀ r ∈ db'.blindSignatures.rows, r ∈ db.blindSignatures.rows
  signed : ∀ p : Option QuoteId → Bool,
    db'.blindSignatures.sum (Db.signedFor p) = db.blindSignatures.sum (Db.signedFor p)
  frame : db' = { db with
    blindSignatures := db'.blindSignatures
    meltQuotes := db'.meltQuotes
    meltRequests := db'.meltRequests }

namespace MeltsChecked

variable {db db' db'' : Db}

theorem refl (db : Db) : MeltsChecked db db :=
  ⟨fun _ => .rfl, fun _ h => h, fun _ h => .inl h, fun _ h => h, fun _ => rfl, rfl⟩

theorem trans (h : MeltsChecked db db') (h' : MeltsChecked db' db'') : MeltsChecked db db'' where
  known i := (h'.known i).trans (h.known i)
  paid i hi := h'.paid i (h.paid i hi)
  kept r hr := (h.kept r hr).elim (h'.kept r) .inr
  origin r hr := h.origin r (h'.origin r hr)
  signed p := (h'.signed p).trans (h.signed p)
  frame := by
    rw [h'.frame, h.frame]

/-- Deleting the request of a quote drops unsigned rows only. -/
theorem withoutMeltRequest (quoteId : QuoteId) (db : Db) :
    MeltsChecked db (Db.withoutMeltRequest quoteId db) where
  known _ := .rfl
  paid _ h := h
  kept r hr := by
    by_cases hres : Db.reservedFor quoteId r = true
    · have hres' : r.quoteId = some quoteId ∧ r.c = none := by simpa [Db.reservedFor] using hres
      exact .inr ⟨hres'.2, by simp [hres'.1]⟩
    · exact .inl (Table.mem_delete.mpr ⟨hr, by simpa using hres⟩)
  origin r hr := (Table.mem_delete.mp hr).1
  signed p := Table.sum_delete_eq fun r _ hres => Db.signedFor_unsigned (by
    have hres' : r.quoteId = some quoteId ∧ r.c = none := by simpa [Db.reservedFor] using hres
    exact hres'.2)
  frame := rfl

theorem withMeltState {quoteId : QuoteId} {state : MeltQuoteState} {q : MeltQuote}
    (hq : q ∈ db.meltQuotes.rows) (hid : q.id = quoteId)
    (hallowed : q.state.transitionAllowed state = true) :
    MeltsChecked db (Db.withMeltState quoteId state db) := by
  have hstate : (Db.withMeltState quoteId state db).meltState =
      Function.update db.meltState quoteId (some state) := Db.meltState_withMeltState hq hid
  have hold : db.meltState quoteId = some q.state := hid ▸ Db.meltState_of_mem hq
  refine ⟨?_, ?_, fun _ h => .inl h, fun _ h => h, fun _ => rfl, rfl⟩
  · intro i
    rw [hstate]
    by_cases hi : i = quoteId
    · subst hi
      simp [hold]
    · rw [Function.update_of_ne hi]
  · intro i hi
    rw [hstate]
    by_cases hne : i = quoteId
    · subst hne
      rw [hold, Option.some.injEq] at hi
      rw [hi] at hallowed
      cases hallowed
    · rwa [Function.update_of_ne hne]

theorem updateMeltQuoteState {quoteId : QuoteId} {state : MeltQuoteState}
    {result : MeltQuoteState × MeltQuote}
    (h : Db.updateMeltQuoteState quoteId state db = .ok (result, db')) : MeltsChecked db db' := by
  obtain ⟨q, hq, hid, hallowed, -, rfl⟩ := Db.updateMeltQuoteState_ok h
  have hs := withMeltState hq hid hallowed
  split
  · exact hs.trans (withoutMeltRequest quoteId _)
  · exact hs

end MeltsChecked

private theorem attempt_checked {quoteId : QuoteId} {state : MeltQuoteState} {db db' : Db}
    {u : Unit} (h : attempt (Db.updateMeltQuoteState quoteId state) db = .ok (u, db')) :
    MeltsChecked db db' := by
  unfold attempt at h
  split at h
  next hupd =>
    cases h
    exact .updateMeltQuoteState hupd
  next =>
    cases h
    exact .refl _
  next => cases h

theorem checkPendingMeltQuotes_ok {backends : Backends}
    {check : PaymentIdentifier → Option MeltQuoteState} {db db' : Db} {u : Unit}
    (h : checkPendingMeltQuotes backends check db = .ok (u, db')) : MeltsChecked db db' := by
  simp only [checkPendingMeltQuotes, Tx.bind_ok, Tx.read_ok] at h
  obtain ⟨quotes, _, ⟨-, rfl⟩, hloop⟩ := h
  refine Tx.forM_preserves (P := MeltsChecked db) ?_ (MeltsChecked.refl db) hloop
  intro quote mid mid' hmid hround
  by_cases hb : backends quote.unit .bolt11 = true
  · rw [checkPendingMeltQuote, if_pos hb] at hround
    cases hl : quote.requestLookupId with
    | none =>
        simp only [hl, Tx.pure_ok] at hround
        exact hround.2 ▸ hmid
    | some lookup =>
        cases hc : check lookup with
        | none => simp [hl, hc] at hround
        | some status =>
            simp only [hl, hc] at hround
            exact hmid.trans (attempt_checked hround)
  · rw [checkPendingMeltQuote, if_neg hb, Tx.pure_ok] at hround
    exact hround.2 ▸ hmid

/-! ## Moves -/

/-- What a step can do. -/
inductive Move (env : Env) (w : World) : Action → World → Prop where
  | idle {a : Action} : Move env w a w
  | tick {a : Action} : Move env w a w.tick
  | createMintQuote {a : Action} (quote : MintQuote) (t : Table MintQuote.id)
      (hid : quote.id = .uuid w.nextId)
      (hzero : quote.amountPaid = .zero ∧ quote.amountIssued = .zero)
      (hrows : t.rows = w.db.mintQuotes.rows ++ [quote]) :
      Move env w a { w with db := { w.db with mintQuotes := t } }.tick
  | createMeltQuote {a : Action} (quote : MeltQuote) (t : Table MeltQuote.id)
      (hid : quote.id = .uuid w.nextId)
      (hrows : t.rows = w.db.meltQuotes.rows ++ [quote]) :
      Move env w a { w with db := { w.db with meltQuotes := t } }.tick
  | credit {a : Action} (db' : Db) (h : Relation.ReflTransGen Credited w.db db') :
      Move env w a { w with db := db' }
  | issue {a : Action} (quote : MintQuote) (total : Nat) (db' : Db)
      (h : Issue quote total w.db db') : Move env w a { w with db := db' }.tick
  | setupSwap {a : Action} (request : SwapRequest) (setup : SwapSetup) (rows : List ProofRow)
      (db' : Db) (hid : setup.operationId = w.nextId)
      (h : SwapReserved env request setup w.db db' rows) :
      Move env w a { w with db := db', swaps := w.swaps ++ [SwapTask.mk setup none] }.tick
  | signSwap {a : Action} (task : SwapTask) (signatures : List BlindSignature)
      (htask : task ∈ w.swaps)
      (hsign : signatures.map BlindSignature.amount =
        task.setup.blindedMessages.map BlindedMessage.amount) :
      Move env w a { w with
        swaps := w.swaps.erase task ++ [{ task with signatures := some signatures }] }
  | dropSwap {a : Action} (task : SwapTask) (htask : task ∈ w.swaps) :
      Move env w a (w.dropSwap task)
  | failSwap {a : Action} (task : SwapTask) (htask : task ∈ w.swaps) :
      Move env w a (w.failSwap task)
  | finalizeSwap {a : Action} (task : SwapTask) (signatures : List BlindSignature) (stored : Db)
      (keepSaga : Bool) (htask : task ∈ w.swaps) (hsigned : task.signatures = some signatures)
      (h : SwapStored task.setup signatures w.db stored) :
      Move env w a { w.dropSwap task with
        db := deleteSagaUnless keepSaga task.setup.operationId stored
        finalized := w.finalized ++ [task.setup] }
  | compensate (task : Compensation) (db' : Db) (htask : task ∈ w.compensations)
      (hremoved : task.removed = false) (h : SetupRemoved task.saga w.db db') :
      Move env w (.compensate task false) { w with
        db := db'
        compensations := w.compensations.erase task ++ [{ task with removed := true }] }
  | skipRecovery {a : Action} (task : Compensation) (htask : task ∈ w.compensations)
      (hremoved : task.removed = false) :
      Move env w a { w with compensations := w.compensations.erase task }
  | skipCompensation {a : Action} (task : Compensation) (htask : task ∈ w.compensations)
      (hremoved : task.removed = false) :
      Move env w a { w with
        compensations := w.compensations.erase task ++ [{ task with removed := true }] }
  | deleteSaga (task : Compensation) (fails : Bool) (htask : task ∈ w.compensations)
      (hremoved : task.removed = true) :
      Move env w (.deleteSaga task fails) (w.deleteSaga task fails)
  | startMelt {a : Action} (request : MeltRequest) (quote : MeltQuote) (rows : List ProofRow)
      (writer : ProofWriter) (db' : Db)
      (h : MeltReserved env request w.nextId quote rows w.db db')
      (hgood : w.db.Settled → writer.Good) :
      Move env w a { w with
        db := db'
        melts := w.melts ++ [MeltTask.mk w.nextId writer (.paying quote)] }.tick
  | settleInternally {a : Action} (request : MeltRequest) (quote : MeltQuote)
      (rows : List ProofRow) (mintQuote : MintQuote) (reserved credited : Db)
      (change : Option PendingChange) (ys : List PublicKey) (writer : ProofWriter) (db' : Db)
      (hreserved : MeltReserved env request w.nextId quote rows w.db reserved)
      (hcredit : Credit mintQuote quote.amount request.quote.toText reserved credited)
      (hsettled : MeltSettled env request.quote quote.amount change ys credited db')
      (hgood : w.db.Settled → writer.Good) :
      Move env w a { w with
        db := db'
        melts := w.melts ++ World.changeTask w.nextId writer change
        internal := w.internal ++ [request.quote.toText] }.tick
  | failMelt {a : Action} (writer : ProofWriter) (hgood : w.db.Settled → writer.Good) :
      Move env w a (w.spawnRollback w.nextId writer).tick
  | endMelt {a : Action} (task : MeltTask) (htask : task ∈ w.melts) :
      Move env w a (w.endMelt task)
  | releaseMelt {a : Action} (task : MeltTask) (writer : ProofWriter) (htask : task ∈ w.melts)
      (hgood : w.db.Settled → task.writer.Good → writer.Good) :
      Move env w a (w.releaseMelt task writer)
  | settleMelt {a : Action} (task : MeltTask) (quote : MeltQuote) (spent : Amount)
      (change : Option PendingChange) (ys : List PublicKey) (writer : ProofWriter) (db' : Db)
      (htask : task ∈ w.melts) (hphase : task.phase = .paying quote)
      (h : MeltSettled env quote.id spent change ys w.db db')
      (hgood : w.db.Settled → task.writer.Good → writer.Good) :
      Move env w a { w with
        db := db'
        melts := w.melts.erase task ++ World.changeTask task.operationId writer change }
  | storeChange {a : Action} (task : MeltTask) (change : PendingChange)
      (signatures : List BlindSignature) (db' : Db) (htask : task ∈ w.melts)
      (hphase : task.phase = .change change)
      (hsign : signatures.map BlindSignature.amount = change.messages.map BlindedMessage.amount)
      (h : ChangeStored change signatures w.db db') :
      Move env w a { w.endMelt task with db := db' }
  | rollback (task : RollbackTask) (htask : task ∈ w.rollbacks) :
      Move env w (.rollback task) (w.rollback task)
  | restart (check : PaymentIdentifier → Option MeltQuoteState) (db' : Db)
      (h : MeltsChecked w.db db') :
      Move env w (.restart check) { w with
        db := db'
        swaps := []
        compensations := db'.sagas.rows.map fun saga => ⟨saga, true, false⟩
        melts := []
        rollbacks := [] }
  | crash (check : PaymentIdentifier → Option MeltQuoteState) :
      Move env w (.restart check) { w with swaps := [], compensations := [], melts := [], rollbacks := [] }
  | keysets {a : Action} (keysets : Keysets)
      (hunits : ∀ id unit, w.keysets.unitOf id = some unit → keysets.unitOf id = some unit) :
      Move env w a { w with keysets := keysets }

/-! ## Every step is a move -/

section StepMove

variable (env : Env) (backends : Backends) (w : World)

/-- A transaction that no task waits for moves as its commit does, or not at all. -/
private theorem transact_cases {α : Type} (x : MintTx α) :
    (∃ r db', x w.db = .ok (r, db') ∧ w.transact x = { w with db := db' }) ∨
      w.transact x = w := by
  rcases Tx.commit_cases x w.db with ⟨r, db', h, hc⟩ | ⟨-, hc, -⟩
  · exact .inl ⟨r, db', h, by rw [World.transact, hc]⟩
  · exact .inr (by rw [World.transact, hc])

theorem createMintQuote_move (a : Action) (quote : MintQuote) :
    Move env w a (w.createMintQuote quote) := by
  unfold World.createMintQuote
  rcases transact_cases w ((Db.addMintQuote { quote with id := .uuid w.nextId }).mapErr
    Error.ofDb) with ⟨_, db', h, hw⟩ | hw <;> rw [hw]
  · obtain ⟨t, q, -, hid, hpaid, hissued, hrows, rfl⟩ := Db.addMintQuote_ok (Tx.mapErr_ok.mp h)
    exact .createMintQuote q t hid ⟨hpaid, hissued⟩ hrows
  · exact .tick

theorem createMeltQuote_move (a : Action) (quote : MeltQuote) :
    Move env w a (w.createMeltQuote quote) := by
  unfold World.createMeltQuote
  rcases transact_cases w ((Db.addMeltQuote
    { quote with id := .uuid w.nextId, state := .unpaid }).mapErr Error.ofDb) with
    ⟨_, db', h, hw⟩ | hw <;> rw [hw]
  · obtain ⟨t, hrows, rfl⟩ := Db.addMeltQuote_ok (Tx.mapErr_ok.mp h)
    exact .createMeltQuote _ t rfl hrows
  · exact .tick

theorem notifyPayment_move (a : Action) (response : WaitPaymentResponse) :
    Move env w a (w.transact (handlePaymentNotification response)) := by
  rcases transact_cases w (handlePaymentNotification response) with ⟨_, db', h, hw⟩ | hw <;>
    rw [hw]
  · rcases handlePaymentNotification_ok h with rfl | hcredit
    · exact .idle
    · exact .credit db' (.single hcredit)
  · exact .idle

theorem checkPaid_move (a : Action) (quoteId : QuoteId) (answer : StatusAnswer) :
    Move env w a (w.checkPaid quoteId answer) := by
  unfold World.checkPaid
  split
  next quote _ =>
    rcases transact_cases w (checkMintQuotePaid answer quote) with ⟨_, db', h, hw⟩ | hw <;> rw [hw]
    · exact .credit db' (checkMintQuotePaid_ok h)
    · exact .idle
  next => exact .idle

theorem issue_move (a : Action) (signing : Keysets) (request : MintRequest) :
    Move env w a (w.issue env signing request) := by
  unfold World.issue
  rcases transact_cases w (signAndIssue env w.keysets signing w.nextId request) with
    ⟨_, db', h, hw⟩ | hw <;> rw [hw]
  · simp only [signAndIssue, Tx.bind_ok, Tx.lift_ok, Tx.pure_ok] at h
    obtain ⟨signatures, _, ⟨hsign, rfl⟩, _, _, hissue, -, rfl⟩ := h
    obtain ⟨quote, total, -, h⟩ := issueSignatures_ok (blindSign_amounts hsign) hissue
    exact .issue quote total _ h
  · exact .tick

theorem setupSwap_move (a : Action) (now : Nat) (request : SwapRequest) :
    Move env w a (w.setupSwap env now request) := by
  unfold World.setupSwap
  split
  next setup db' h =>
    obtain ⟨hid, rows, hres⟩ := startSwap_ok h
    exact .setupSwap request setup rows db' hid hres
  next => exact .tick

theorem signSwap_move (a : Action) {task : SwapTask} (htask : task ∈ w.swaps) (fails : Bool) :
    Move env w a (w.signSwap env task fails) := by
  unfold World.signSwap
  split
  next signatures h => exact .signSwap task signatures htask (blindSign_amounts h)
  next => exact .dropSwap task htask
  next => exact .failSwap task htask

theorem finalizeSwap_move (a : Action) {task : SwapTask} {signatures : List BlindSignature}
    (htask : task ∈ w.swaps) (hsigned : task.signatures = some signatures) (fault : Fault) :
    Move env w a (w.finalizeSwap task signatures fault) := by
  unfold World.finalizeSwap
  split
  · exact .dropSwap task htask
  · split
    · exact .failSwap task htask
    · exact .dropSwap task htask
    next stored h =>
      split
      · exact .dropSwap task htask
      · exact .finalizeSwap task signatures stored _ htask hsigned (storeSwap_ok h)

theorem compensate_move {task : Compensation} (htask : task ∈ w.compensations)
    (hremoved : task.removed = false) (fails : Bool) :
    Move env w (.compensate task fails) (w.compensate task fails) := by
  unfold World.compensate
  dsimp only
  split
  next db' h => exact .compensate task db' htask hremoved (removeSwapSetup_ok h)
  next =>
    split
    · exact .skipRecovery task htask hremoved
    · exact .skipCompensation task htask hremoved

theorem startMelt_move (a : Action) (now : Nat) (request : MeltRequest) (commitFails : Bool) :
    Move env w a (w.startMelt env backends now request commitFails) := by
  unfold World.startMelt
  split
  next writer start db' h =>
    have hgood : w.db.Settled → writer.Good := fun hdb => (startMelt_good hdb).1 _ h
    split
    · exact .failMelt writer hgood
    · obtain ⟨rows, quote, ⟨-, rfl, -, hres⟩ | ⟨mintQuote, reserved, credited, change, ys, rfl, hres,
        -, hcredit, hsettled⟩⟩ := startMelt_ok h
      · exact .startMelt request quote rows writer db' hres hgood
      · exact .settleInternally request quote rows mintQuote reserved credited change ys writer db'
          hres hcredit hsettled hgood
  next failure h => exact .failMelt failure.writer fun hdb => (startMelt_good hdb).2 _ h
  next => exact .tick

theorem settleMelt_move (a : Action) {task : MeltTask} {quote : MeltQuote}
    (htask : task ∈ w.melts) (hphase : task.phase = .paying quote)
    (response : MakePaymentResponse) (commitFails : Bool) :
    Move env w a (w.settleMelt env task quote response commitFails) := by
  unfold World.settleMelt
  split
  next writer change db' h =>
    have hgood : w.db.Settled → task.writer.Good → writer.Good :=
      fun hdb hw => (settleExternal_good hw hdb).1 _ h
    split
    · exact .releaseMelt task writer htask hgood
    · obtain ⟨ys, hsettled⟩ := settleExternal_ok h
      exact .settleMelt task quote _ change ys writer db' htask hphase hsettled hgood
  next failure h =>
    exact .releaseMelt task failure.writer htask fun hdb hw => (settleExternal_good hw hdb).2 _ h
  next => exact .endMelt task htask

theorem payMelt_move (a : Action) {task : MeltTask} {quote : MeltQuote}
    (htask : task ∈ w.melts) (hphase : task.phase = .paying quote) (backend : PaymentBackend)
    (commitFails : Bool) : Move env w a (w.payMelt env task quote backend commitFails) := by
  unfold World.payMelt
  split
  · exact settleMelt_move env w a htask hphase _ commitFails
  · exact .endMelt task htask
  · exact .releaseMelt task task.writer htask fun _ hw => hw

theorem signChange_move (a : Action) {task : MeltTask} {change : PendingChange}
    (htask : task ∈ w.melts) (hphase : task.phase = .change change) (commitFails : Bool) :
    Move env w a (w.signChange env task change commitFails) := by
  unfold World.signChange
  split
  next signatures hsign =>
    split
    next db' h =>
      split
      · exact .endMelt task htask
      · exact .storeChange task change signatures db' htask hphase (blindSign_amounts hsign)
          (storeChange_ok h)
    next => exact .releaseMelt task task.writer htask fun _ hw => hw
  next => exact .releaseMelt task task.writer htask fun _ hw => hw

theorem restart_move (check : PaymentIdentifier → Option MeltQuoteState) :
    Move env w (.restart check) (w.restart backends check) := by
  unfold World.restart
  split
  next db' h => exact .restart check db' (checkPendingMeltQuotes_ok h)
  next => exact .crash check

theorem rotateKeyset_move (a : Action) (keyset : KeySet) : Move env w a (w.rotateKeyset keyset) := by
  unfold World.rotateKeyset
  split
  next => exact .idle
  next =>
    refine .keysets _ ?_
    intro id unit
    refine Keysets.unitOf_map_append ?_ ?_
    · intro k
      split <;> rfl
    · intro k
      split <;> rfl

/-- Every step is a move. -/
theorem step_move (a : Action) : Move env w a (w.step env backends a) := by
  cases a with
  | createMintQuote quote => exact createMintQuote_move env w _ quote
  | createMeltQuote quote => exact createMeltQuote_move env w _ quote
  | notifyPayment response => exact notifyPayment_move env w _ response
  | checkPaid quoteId answer => exact checkPaid_move env w _ quoteId answer
  | issue signing request => exact issue_move env w _ signing request
  | setupSwap now request => exact setupSwap_move env w _ now request
  | signSwap task fails =>
      simp only [World.step]
      split
      next h => exact signSwap_move env w _ h.1 fails
      next => exact .idle
  | finalizeSwap task fault =>
      simp only [World.step]
      split
      next signatures hs =>
        split
        next h => exact finalizeSwap_move env w _ h hs fault
        next => exact .idle
      next => exact .idle
  | compensate task fails =>
      simp only [World.step]
      split
      next h => exact compensate_move env w h.1 h.2 fails
      next => exact .idle
  | deleteSaga task fails =>
      simp only [World.step]
      split
      next h => exact .deleteSaga task fails h.1 h.2
      next => exact .idle
  | startMelt now request commitFails => exact startMelt_move env backends w _ now request _
  | payMelt task backend commitFails =>
      simp only [World.step]
      split
      next quote hp =>
        split
        next h => exact payMelt_move env w _ h hp backend commitFails
        next => exact .idle
      next => exact .idle
  | signChange task commitFails =>
      simp only [World.step]
      split
      next change hp =>
        split
        next h => exact signChange_move env w _ h hp commitFails
        next => exact .idle
      next => exact .idle
  | rollback task =>
      simp only [World.step]
      split
      next h => exact .rollback task h
      next => exact .idle
  | restart check => exact restart_move env backends w check
  | rotateKeyset keyset => exact rotateKeyset_move env w _ keyset

end StepMove

end Cdk
