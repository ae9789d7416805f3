import Cdk.Mint.MeltFailure
import Cdk.Mint.Recovery
import Cdk.Mint.Solvency

/-!
# What rollbacks delete

A dropped writer removes its proofs by their keys, also when its melt has never
committed them. A melt that has committed its first transaction finds its own
proofs under these keys for as long as nobody else deletes them. A melt that
failed before its commit has stored nothing, so whatever it removes belongs to
another operation.
-/

namespace Cdk

open Lib

/-- The operation has stored proofs. -/
def Db.Committed (db : Db) (operation : Operation) : Prop :=
  ∃ r ∈ db.proofs.rows, r.operation = operation

/-- A step has removed or changed only proofs that one operation has stored. -/
structure TouchesOwn (operation : Operation) (db db' : Db) : Prop where
  removed : ∀ r ∈ db.proofs.rows, r ∉ db'.proofs.rows → r.operation = operation
  origin : ∀ r ∈ db'.proofs.rows, r ∈ db.proofs.rows
  frame : db' = { db with proofs := db'.proofs }

/-- A rollback that can remove its proofs belongs to a melt that has committed them, and a
compensation that can remove its proofs meets those of its own swap. -/
def RemovesCommitted (w : World) (a : Action) : Prop :=
  match a with
  | .compensate task fails => fails = false → w.db.Removes task.saga.inputYs →
      w.db.Owns task.saga.inputYs task.saga.operation
  | .rollback task => task ∈ w.rollbacks → task.writer.Additions →
      task.writer.withOriginal none ≠ [] → w.db.Removes (task.writer.withOriginal none) →
      w.db.Committed ⟨.melt, task.operationId⟩
  | _ => True

instance (db : Db) (operation : Operation) : Decidable (db.Committed operation) :=
  inferInstanceAs (Decidable (∃ r ∈ db.proofs.rows, _))

instance (db : Db) (ys : List PublicKey) : Decidable (db.Removes ys) :=
  inferInstanceAs (Decidable (_ = _))

instance (writer : ProofWriter) : Decidable writer.Additions :=
  decidable_of_iff (∀ e ∈ writer, e.2 = none ∨ e.2 = some .spent)
    ⟨fun h e he state hs => by
      rcases h e he with hn | hn <;> rw [hn] at hs <;> cases hs
      rfl,
    fun h e he => by
      cases hs : e.2 with
      | none => exact .inl rfl
      | some state => exact .inr (by rw [h e he state hs])⟩

instance (w : World) (a : Action) : Decidable (RemovesCommitted w a) :=
  match a with
  | .compensate task fails => inferInstanceAs (Decidable (fails = false →
      w.db.Removes task.saga.inputYs → w.db.Owns task.saga.inputYs task.saga.operation))
  | .rollback task => inferInstanceAs (Decidable (task ∈ w.rollbacks → task.writer.Additions →
      task.writer.withOriginal none ≠ [] → w.db.Removes (task.writer.withOriginal none) →
      w.db.Committed ⟨.melt, task.operationId⟩))
  | .createMintQuote _ | .createMeltQuote _ | .notifyPayment _ | .checkPaid _ _ | .issue _ _
  | .setupSwap _ _ | .signSwap _ _ | .finalizeSwap _ _ | .deleteSaga _ _ | .startMelt _ _ _
  | .payMelt _ _ _ | .signChange _ _ | .restart _ | .rotateKeyset _ => .isTrue trivial

instance (operation : Operation) (db db' : Db) : Decidable (TouchesOwn operation db db') :=
  decidable_of_iff
    ((∀ r ∈ db.proofs.rows, r ∉ db'.proofs.rows → r.operation = operation) ∧
      (∀ r ∈ db'.proofs.rows, r ∈ db.proofs.rows) ∧ db' = { db with proofs := db'.proofs })
    ⟨fun h => ⟨h.1, h.2.1, h.2.2⟩, fun h => ⟨h.removed, h.origin, h.frame⟩⟩

/-! ## The keys of a writer -/

section Writers

variable {env : Env} {keysets : Keysets} {backends : Backends} {db db' : Db}
  {writer writer' : ProofWriter}

/-- The proofs that a writer has added. -/
theorem ProofWriter.mem_withOriginal {y : PublicKey} {state : Option State} :
    y ∈ writer.withOriginal state ↔ (y, state) ∈ writer := by
  simp [ProofWriter.withOriginal]

/-- The states that an update reports are those of stored proofs. -/
theorem Db.updateProofsStates_known {ys : List PublicKey} {new : State}
    {original : List (Option State)} (h : Db.updateProofsStates ys new db = .ok (original, db')) :
    none ∉ original := by
  have hlen := (Db.updateProofsStates_ok h).1
  simp only [Db.updateProofsStates, Tx.bind_ok, Tx.read_ok, Tx.ensure_ok, Tx.lift_ok, Tx.write_ok,
    Tx.pure_ok] at h
  obtain ⟨_, _, ⟨rfl, rfl⟩, _, _, ⟨-, rfl⟩, _, _, ⟨-, rfl⟩, _, _, -, rfl, -⟩ := h
  intro hnone
  obtain ⟨y, hy, hfind⟩ := List.mem_map.mp hnone
  obtain ⟨r, hr, hkey⟩ := Table.exists_row_of_length hlen hy
  rw [Option.map_eq_none_iff, List.find?_eq_none] at hfind
  apply hfind r (List.mem_filter.mpr ⟨hr, by simpa [hkey] using hy⟩)
  simpa using hkey

/-- Burning the inputs of a quote adds no proof to the writer. -/
theorem ProofWriter.withOriginal_record {ys : List PublicKey} {new : State}
    {original : List (Option State)} (h : Db.updateProofsStates ys new db = .ok (original, db'))
    {y : PublicKey} (hy : y ∈ (writer.record ys original).withOriginal none) :
    y ∈ writer.withOriginal none := by
  rw [ProofWriter.mem_withOriginal] at hy ⊢
  rcases ProofWriter.mem_record hy with hmem | hmem
  · exact hmem
  · exact absurd hmem (Db.updateProofsStates_known h)

/-- A writer that goes through the settlement of a melt gets no new additions. -/
def ProofWriter.Within (writer' writer : ProofWriter) : Prop :=
  ∀ y ∈ writer'.withOriginal none, y ∈ writer.withOriginal none

theorem ProofWriter.Within.refl (writer : ProofWriter) : writer.Within writer := fun _ h => h

theorem processMeltRequest_within {quoteId : QuoteId} {spent : Amount} :
    (∀ r, processMeltRequest env keysets writer quoteId spent db = .ok r → r.1.1.Within writer) ∧
      ∀ failure, processMeltRequest env keysets writer quoteId spent db = .err failure →
        failure.writer.Within writer := by
  constructor
  · rintro ⟨⟨writer', change⟩, db'⟩ h
    simp only [processMeltRequest, Tx.bind_ok, guarded_ok, Tx.pure_ok, Prod.mk.injEq] at h
    obtain ⟨_, mid, hburn, _, _, -, ⟨rfl, -⟩, -⟩ := h
    obtain ⟨ys, original, -, -, hupd, rfl⟩ := burnInputs_ok hburn
    exact fun y hy => ProofWriter.withOriginal_record hupd hy
  · intro failure h
    rw [processMeltRequest, Tx.bind_err] at h
    rcases h with h | ⟨writer', mid, hburn, h⟩
    · simp only [burnInputs, Tx.bind_err] at h
      rcases h with h | ⟨_, _, -, h | ⟨_, _, -, h⟩⟩ <;> rw [guarded_err h] <;> exact .refl writer
    · obtain ⟨ys, original, -, -, hupd, rfl⟩ := burnInputs_ok hburn
      rw [Tx.bind_err] at h
      rcases h with h | ⟨_, _, -, h⟩
      · rw [guarded_err h]
        exact fun y hy => ProofWriter.withOriginal_record hupd hy
      · cases h

theorem settleExternal_within {quote : MeltQuote} {response : MakePaymentResponse} :
    (∀ r, settleExternal env keysets writer quote response db = .ok r → r.1.1.Within writer) ∧
      ∀ failure, settleExternal env keysets writer quote response db = .err failure →
        failure.writer.Within writer := by
  unfold settleExternal
  split
  · constructor
    · intro r h
      obtain ⟨_, named, -, h⟩ := Tx.bind_ok.mp h
      exact processMeltRequest_within.1 r h
    · intro failure h
      rcases Tx.bind_err.mp h with h | ⟨_, named, -, h⟩
      · rw [guarded_err h]
        exact .refl writer
      · exact processMeltRequest_within.2 failure h
  · exact processMeltRequest_within

/-- The proofs that a writer has added are stored under one operation. -/
def Db.Holds (db : Db) (writer : ProofWriter) (operation : Operation) : Prop :=
  ∀ y ∈ writer.withOriginal none, ∃ r ∈ db.proofs.rows, r.y = y ∧ r.operation = operation

theorem MeltReserved.holds {request : MeltRequest} {operationId : Uuid} {quote : MeltQuote}
    {rows : List ProofRow} (h : MeltReserved env request operationId quote rows db db') :
    db'.Holds (rows.map fun r => (r.y, none)) ⟨.melt, operationId⟩ := by
  intro y hy
  rw [ProofWriter.mem_withOriginal] at hy
  obtain ⟨r, hr, heq⟩ := List.mem_map.mp hy
  refine ⟨r, ?_, (Prod.mk.inj heq).1, (h.reserved.pending r hr).2.2⟩
  rw [h.proofs]
  exact List.mem_append_right _ hr

theorem Db.Holds.of_kept {operation : Operation} (h : db.Holds writer operation)
    (hkept : OpKept operation db db') (hsub : writer'.Within writer) :
    db'.Holds writer' operation := by
  intro y hy
  obtain ⟨r, hr, hkey, hop⟩ := h y (hsub y hy)
  obtain ⟨r', hr', hkey', hop', -⟩ := hkept.kept r hr hop
  exact ⟨r', hr', hkey'.trans hkey, hop'⟩

/-- The writer of a melt whose first transaction succeeds has added stored proofs of the melt. -/
theorem startMelt_holds {now : Nat} {operationId : Uuid} {request : MeltRequest}
    {start : MeltStart}
    (h : startMelt env keysets backends now operationId request db = .ok ((writer, start), db')) :
    db'.Holds writer ⟨.melt, operationId⟩ := by
  simp only [startMelt, Tx.bind_ok, guarded_ok] at h
  obtain ⟨⟨added, quote⟩, reserved, hreserve, internal, handled, hinternal, h⟩ := h
  obtain ⟨rows, rfl, hres⟩ := reserveMelt_ok hreserve
  rcases handleInternalMeltMint_ok hinternal with ⟨rfl, -, rfl⟩ | ⟨rfl, mintQuote, -, -, hcredit⟩
  · simp only [settleOrPay, Tx.bind_ok, guarded_ok, Tx.lift_ok, Tx.pure_ok, Prod.mk.injEq] at h
    obtain ⟨_, _, ⟨-, rfl⟩, ⟨rfl, rfl⟩, rfl⟩ := h
    exact hres.holds
  · simp only [settleOrPay, Tx.bind_ok, Tx.pure_ok, Prod.mk.injEq] at h
    obtain ⟨⟨_, change⟩, _, hprocess, ⟨rfl, rfl⟩, rfl⟩ := h
    obtain ⟨ys, hsettled⟩ := processMeltRequest_ok hprocess
    have hcredited : OpKept ⟨.melt, operationId⟩ reserved handled :=
      .of_eq (by rw [hcredit.frame])
    apply hres.holds.of_kept (hcredited.trans (.of_states hsettled.proofs))
    exact processMeltRequest_within.1 _ hprocess

end Writers

/-! ## The writers after a step -/

/-- The writer of a task after a step is that of a melt in flight, up to burnt proofs. -/
def World.Continues (w : World) (operationId : Uuid) (writer : ProofWriter) : Prop :=
  ∃ old ∈ w.melts, old.operationId = operationId ∧ writer.Within old.writer

/-- A melt in flight after a step was in flight before or has just stored its proofs, and a
rollback was there before, ends a melt in flight, or ends a melt that has changed nothing. -/
structure WritersStep (w w' : World) : Prop where
  melts : ∀ task ∈ w'.melts, w.Continues task.operationId task.writer ∨
    (task.operationId = w.nextId ∧ w'.db.Holds task.writer ⟨.melt, w.nextId⟩)
  rollbacks : ∀ task ∈ w'.rollbacks, task ∈ w.rollbacks ∨
    w.Continues task.operationId task.writer ∨ (task.operationId = w.nextId ∧ w'.db = w.db)

section Steps

variable {env : Env} {backends : Backends} {w w' : World} {a : Action}

theorem World.continues_of_mem {task : MeltTask} (h : task ∈ w.melts) :
    w.Continues task.operationId task.writer :=
  ⟨task, h, rfl, .refl task.writer⟩

namespace WritersStep

theorem of_subset (hmelts : ∀ task ∈ w'.melts, task ∈ w.melts)
    (hrollbacks : ∀ task ∈ w'.rollbacks, task ∈ w.rollbacks) : WritersStep w w' where
  melts task htask := .inl (World.continues_of_mem (hmelts task htask))
  rollbacks task htask := .inl (hrollbacks task htask)

theorem of_eq (hmelts : w'.melts = w.melts) (hrollbacks : w'.rollbacks = w.rollbacks) :
    WritersStep w w' :=
  of_subset (fun _ h => hmelts ▸ h) (fun _ h => hrollbacks ▸ h)

theorem endMelt (task : MeltTask) (db' : Db) : WritersStep w { w.endMelt task with db := db' } :=
  of_subset (fun _ h => List.mem_of_mem_erase h) (fun _ h => h)

theorem releaseMelt {task : MeltTask} {writer : ProofWriter} (htask : task ∈ w.melts)
    (hsub : writer.Within task.writer) : WritersStep w (w.releaseMelt task writer) where
  melts other hother := .inl (World.continues_of_mem (List.mem_of_mem_erase hother))
  rollbacks other hother := by
    rcases List.mem_append.mp hother with hold | hnew
    · exact .inl hold
    · rw [List.mem_singleton.mp hnew]
      exact .inr (.inl ⟨task, htask, rfl, hsub⟩)

theorem failMelt (writer : ProofWriter) : WritersStep w (w.spawnRollback w.nextId writer).tick where
  melts task htask := .inl (World.continues_of_mem htask)
  rollbacks task htask := by
    rcases List.mem_append.mp htask with hold | hnew
    · exact .inl hold
    · rw [List.mem_singleton.mp hnew]
      exact .inr (.inr ⟨rfl, rfl⟩)

/-- A melt that has stored its proofs joins the melts in flight. -/
theorem startMelt {tasks : List MeltTask} {writer : ProofWriter}
    (hmelts : w'.melts = w.melts ++ tasks) (hrollbacks : w'.rollbacks = w.rollbacks)
    (htasks : ∀ task ∈ tasks, task.operationId = w.nextId ∧ task.writer = writer)
    (hholds : w'.db.Holds writer ⟨.melt, w.nextId⟩) : WritersStep w w' where
  melts task htask := by
    rw [hmelts] at htask
    rcases List.mem_append.mp htask with hold | hnew
    · exact .inl (World.continues_of_mem hold)
    · obtain ⟨hid, hwriter⟩ := htasks task hnew
      rw [hwriter]
      exact .inr ⟨hid, hholds⟩
  rollbacks task htask := .inl (hrollbacks ▸ htask)

theorem settleMelt {task : MeltTask} {tasks : List MeltTask} {writer : ProofWriter}
    (htask : task ∈ w.melts) (hmelts : w'.melts = w.melts.erase task ++ tasks)
    (hrollbacks : w'.rollbacks = w.rollbacks)
    (htasks : ∀ t ∈ tasks, t.operationId = task.operationId ∧ t.writer = writer)
    (hsub : writer.Within task.writer) : WritersStep w w' where
  melts t ht := by
    rw [hmelts] at ht
    rcases List.mem_append.mp ht with hold | hnew
    · exact .inl (World.continues_of_mem (List.mem_of_mem_erase hold))
    · obtain ⟨hid, hwriter⟩ := htasks t hnew
      rw [hid, hwriter]
      exact .inl ⟨task, htask, rfl, hsub⟩
  rollbacks t ht := .inl (hrollbacks ▸ ht)

end WritersStep

private theorem changeTask_writer {operationId : Uuid} {writer : ProofWriter}
    {change : Option PendingChange} {task : MeltTask}
    (h : task ∈ World.changeTask operationId writer change) :
    task.operationId = operationId ∧ task.writer = writer := by
  obtain ⟨c, -, rfl⟩ := List.mem_map.mp h
  exact ⟨rfl, rfl⟩

theorem startMelt_writers (now : Nat) (request : MeltRequest) (commitFails : Bool) :
    WritersStep w (w.startMelt env backends now request commitFails) := by
  unfold World.startMelt
  split
  next writer start db' h =>
    have hholds := startMelt_holds h
    split
    · exact .failMelt writer
    · split
      next change => exact .startMelt rfl rfl (fun _ ht => changeTask_writer ht) hholds
      next quote =>
        refine .startMelt rfl rfl ?_ hholds
        intro task ht
        rw [List.mem_singleton.mp ht]
        exact ⟨rfl, rfl⟩
  next failure _ => exact .failMelt failure.writer
  next => exact .of_eq rfl rfl

theorem payMelt_writers {task : MeltTask} (htask : task ∈ w.melts) (quote : MeltQuote)
    (backend : PaymentBackend) (commitFails : Bool) :
    WritersStep w (w.payMelt env task quote backend commitFails) := by
  unfold World.payMelt
  split
  next response _ =>
    unfold World.settleMelt
    split
    next writer change db' h =>
      have hsub : writer.Within task.writer := settleExternal_within.1 _ h
      split
      · exact .releaseMelt htask hsub
      · exact .settleMelt htask rfl rfl (fun _ ht => changeTask_writer ht) hsub
    next failure h => exact .releaseMelt htask (settleExternal_within.2 failure h)
    next => exact .endMelt task w.db
  next => exact .endMelt task w.db
  next => exact .releaseMelt htask (.refl task.writer)

theorem signChange_writers {task : MeltTask} (htask : task ∈ w.melts) (change : PendingChange)
    (commitFails : Bool) : WritersStep w (w.signChange env task change commitFails) := by
  unfold World.signChange
  split
  · split
    next db' _ =>
      split
      · exact .endMelt task w.db
      · exact .endMelt task db'
    next => exact .releaseMelt htask (.refl task.writer)
  next => exact .releaseMelt htask (.refl task.writer)

theorem step_writers (env : Env) (backends : Backends) (w : World) (a : Action) :
    WritersStep w (w.step env backends a) := by
  cases a with
  | checkPaid quoteId answer =>
      simp only [World.step, World.checkPaid]
      split <;> exact .of_eq rfl rfl
  | setupSwap now request =>
      simp only [World.step, World.setupSwap]
      split <;> exact .of_eq rfl rfl
  | signSwap task fails =>
      simp only [World.step, World.signSwap]
      split
      · split <;> exact .of_eq rfl rfl
      · exact .of_eq rfl rfl
  | finalizeSwap task fault =>
      simp only [World.step, World.finalizeSwap]
      split
      · split
        · split
          · exact .of_eq rfl rfl
          · split
            · exact .of_eq rfl rfl
            · exact .of_eq rfl rfl
            · split <;> exact .of_eq rfl rfl
        · exact .of_eq rfl rfl
      · exact .of_eq rfl rfl
  | compensate task fails =>
      simp only [World.step, World.compensate]
      split
      · split
        · exact .of_eq rfl rfl
        · split <;> exact .of_eq rfl rfl
      · exact .of_eq rfl rfl
  | deleteSaga task fails =>
      simp only [World.step, World.deleteSaga]
      split <;> exact .of_eq rfl rfl
  | startMelt now request commitFails => exact startMelt_writers now request commitFails
  | payMelt task backend commitFails =>
      simp only [World.step]
      split
      next quote _ =>
        split
        next h => exact payMelt_writers h quote backend commitFails
        next => exact .of_eq rfl rfl
      next => exact .of_eq rfl rfl
  | signChange task commitFails =>
      simp only [World.step]
      split
      next change _ =>
        split
        next h => exact signChange_writers h change commitFails
        next => exact .of_eq rfl rfl
      next => exact .of_eq rfl rfl
  | rollback task =>
      simp only [World.step, World.rollback]
      split
      · exact .of_subset (fun _ h => h) (fun _ h => List.mem_of_mem_erase h)
      · exact .of_eq rfl rfl
  | restart check =>
      simp only [World.step, World.restart]
      split <;> exact .of_subset (fun _ h => absurd h List.not_mem_nil)
        (fun _ h => absurd h List.not_mem_nil)
  | rotateKeyset keyset =>
      simp only [World.step, World.rotateKeyset]
      split <;> exact .of_eq rfl rfl
  | _ => exact .of_eq rfl rfl

/-! ## Runs -/

/-- A melt in flight has stored all its additions, and a melt that is rolled back has stored all
of them or none. -/
structure WritersHeld (w : World) : Prop where
  melts : ∀ task ∈ w.melts, w.db.Holds task.writer ⟨.melt, task.operationId⟩
  rollbacks : ∀ task ∈ w.rollbacks, w.db.Committed ⟨.melt, task.operationId⟩ →
    w.db.Holds task.writer ⟨.melt, task.operationId⟩

theorem Db.Holds.owns {db : Db} {writer : ProofWriter} {operation : Operation}
    (h : db.Holds writer operation) : db.Owns (writer.withOriginal none) operation := by
  intro r hr hp
  have hp' : r.y ∈ writer.withOriginal none ∧ ¬ r.state = .spent := by
    simpa [Db.removable] using hp
  obtain ⟨r', hr', hkey, hop⟩ := h r.y hp'.1
  rw [Table.eq_of_key hr hr' hkey.symm]
  exact hop

/-- A rollback that meets the condition changes nothing or meets proofs of its own melt. -/
theorem rollback_own (hst : Stored env w) (hw : WritersHeld w) {task : RollbackTask}
    (hcond : RemovesCommitted w (.rollback task)) (htask : task ∈ w.rollbacks) :
    (task.writer.rollback w.db).2 = w.db ∨
      (w.db.Owns (task.writer.withOriginal none) ⟨.melt, task.operationId⟩ ∧
        (task.writer.rollback w.db).2 = { w.db with
          proofs := w.db.proofs.delete (Db.removable (task.writer.withOriginal none)) }) := by
  rcases rollback_cases (hst.rollbacks task htask) hst.settled with h | ⟨⟨hnew, hall⟩, h⟩
  · exact .inl h
  · by_cases hkeys : task.writer.withOriginal none = []
    · refine .inl (h.trans ?_)
      rw [Table.delete_eq_self (by simp [hkeys, Db.removable])]
    · exact .inr ⟨(hw.rollbacks task htask (hcond htask hnew hkeys hall)).owns, h⟩

/-- A step that meets the condition keeps the proofs of every melt that it does not roll back. -/
theorem opKept_of_committed (hst : Stored env w) (hw : WritersHeld w)
    (hcond : RemovesCommitted w a) {operationId : Uuid} (hold : operationId < w.nextId)
    (hother : ∀ task ∈ w.rollbacks, a = .rollback task → operationId ≠ task.operationId) :
    OpKept ⟨.melt, operationId⟩ w.db (w.step env backends a).db := by
  by_cases hsame : (w.step env backends a).db = w.db
  · exact .of_eq (by rw [hsame])
  refine (step_move env backends w a).opKept hst hold ?_ ?_
  · rintro task htask - rfl - r hr hp heq
    rcases compensate_cases env backends w task false with h | ⟨-, -, h⟩
    · exact hsame h
    · have hswap := hcond rfl h.found r hr hp
      rw [heq] at hswap
      cases (Operation.mk.inj hswap).1
  · rintro task htask rfl r hr hp heq
    rcases rollback_own hst hw hcond htask with h | ⟨hown, -⟩
    · apply hsame
      simp only [World.step, if_pos htask, World.rollback, h]
    · have hmelt := hown r hr hp
      rw [heq] at hmelt
      exact hother task htask rfl (Operation.mk.inj hmelt).2

theorem step_writersHeld (hst : Stored env w) (hids : OperationIds w) (hw : WritersHeld w)
    (hcond : RemovesCommitted w a) : WritersHeld (w.step env backends a) := by
  have hsteps := step_writers env backends w a
  have hmeltIds : (w.melts.map MeltTask.operationId ++
      w.rollbacks.map RollbackTask.operationId).Nodup := hids.melts
  have hcontinues : ∀ {operationId : Uuid} {writer : ProofWriter},
      w.Continues operationId writer →
      (w.step env backends a).db.Holds writer ⟨.melt, operationId⟩ := by
    rintro operationId writer ⟨old, hold, rfl, hsub⟩
    have hmem : old.operationId ∈ w.melts.map MeltTask.operationId := List.mem_map_of_mem hold
    apply (hw.melts old hold).of_kept _ hsub
    apply opKept_of_committed hst hw hcond (hids.meltsOld _ (List.mem_append_left _ hmem))
    intro task htask _
    exact (List.nodup_append.mp hmeltIds).2.2 _ hmem _ (List.mem_map_of_mem htask)
  constructor
  · intro task htask
    rcases hsteps.melts task htask with hold | ⟨hid, hholds⟩
    · exact hcontinues hold
    · rw [hid]
      exact hholds
  · intro task htask hcommitted
    rcases hsteps.rollbacks task htask with hold | hold | ⟨hid, hdb⟩
    · have hmem : task.operationId ∈ w.rollbacks.map RollbackTask.operationId :=
        List.mem_map_of_mem hold
      have hkept : OpKept ⟨.melt, task.operationId⟩ w.db (w.step env backends a).db := by
        apply opKept_of_committed hst hw hcond (hids.meltsOld _ (List.mem_append_right _ hmem))
        rintro other hother rfl heq
        -- the task that has run is not there any more
        have hnd : (w.rollbacks.map RollbackTask.operationId).Nodup :=
          (List.nodup_append.mp hmeltIds).2.1
        have hsame : task = other := List.inj_on_of_nodup_map hnd hold hother heq
        simp only [World.step, if_pos hother, World.rollback, hsame] at htask
        exact (List.Nodup.of_map _ hnd).not_mem_erase htask
      obtain ⟨r', hr', hop'⟩ := hcommitted
      obtain ⟨r, hr, -, hop, -⟩ := hkept.origin r' hr' hop'
      exact (hw.rollbacks task hold ⟨r, hr, hop⟩).of_kept hkept (.refl task.writer)
    · exact hcontinues hold
    · exfalso
      obtain ⟨r, hr, hop⟩ := hcommitted
      rw [hdb] at hr
      have hlt := hids.proofs r hr
      rw [hop, hid] at hlt
      exact Nat.lt_irrefl _ hlt

/-- The invariants of a run in which removals meet committed proofs. -/
structure WritersInv (env : Env) (w : World) : Prop where
  stored : Stored env w
  ids : OperationIds w
  held : WritersHeld w

theorem writersInv_run {keysets : Keysets} {actions : List Action}
    (h : Along (World.step env backends) RemovesCommitted (World.init keysets) actions) :
    WritersInv env (World.reached env backends keysets actions) := by
  refine invariant_along ?_ ⟨stored_init keysets, operationIds_init keysets, ?_⟩ h
  · intro w a hw hcond
    have hmove := step_move env backends w a
    exact ⟨hmove.stored hw.stored, hmove.operationIds hw.stored hw.ids,
      step_writersHeld hw.stored hw.ids hw.held hcond⟩
  · constructor <;> simp [World.init]

theorem touchesOwn_refl (operation : Operation) (db : Db) : TouchesOwn operation db db :=
  ⟨fun _ hr hn => absurd hr hn, fun _ hr => hr, rfl⟩

theorem Db.Owns.touchesOwn {db : Db} {ys : List PublicKey} {operation : Operation}
    (h : db.Owns ys operation) :
    TouchesOwn operation db { db with proofs := db.proofs.delete (Db.removable ys) } where
  removed r hr hgone := by
    apply h r hr
    by_contra hp
    exact hgone (Table.mem_delete.mpr ⟨hr, by simpa using hp⟩)
  origin r hr := (Table.mem_delete.mp hr).1
  frame := rfl

/-- A removal of keys that are all stored removes a proof. -/
theorem Db.Removes.exists_row {db : Db} {ys : List PublicKey} (h : db.Removes ys)
    (hne : ys ≠ []) : ∃ r ∈ db.proofs.rows, Db.removable ys r = true := by
  have hpos : (db.proofs.rows.filter (Db.removable ys)) ≠ [] := by
    intro hnil
    rw [Db.Removes, hnil] at h
    exact hne (List.length_eq_zero_iff.mp h.symm)
  obtain ⟨r, hr⟩ := List.exists_mem_of_ne_nil _ hpos
  exact ⟨r, List.mem_filter.mp hr⟩

theorem step_rollback_db (task : RollbackTask) :
    (w.step env backends (.rollback task)).db =
      if task ∈ w.rollbacks then (task.writer.rollback w.db).2 else w.db := by
  simp only [World.step]
  split <;> rfl

/-- A rollback touches only proofs of its own melt exactly when it meets the condition. -/
theorem WritersInv.touchesOwn_iff (hw : WritersInv env w) (task : RollbackTask) :
    TouchesOwn ⟨.melt, task.operationId⟩ w.db (w.step env backends (.rollback task)).db ↔
      RemovesCommitted w (.rollback task) := by
  rw [step_rollback_db]
  split
  next htask =>
    constructor
    · intro h _ hnew hkeys hall
      rw [rollback_removes hnew hall] at h
      obtain ⟨r, hr, hp⟩ := hall.exists_row hkeys
      refine ⟨r, hr, h.removed r hr ?_⟩
      rw [Table.mem_delete, hp]
      exact fun hmem => Bool.noConfusion hmem.2
    · intro hcond
      rcases rollback_own hw.stored hw.held hcond htask with h | ⟨hown, h⟩
      · rw [h]
        exact touchesOwn_refl _ _
      · rw [h]
        exact hown.touchesOwn
  next htask => exact ⟨fun _ hmem => absurd hmem htask, fun _ => touchesOwn_refl _ _⟩

end Steps

/-- In every run in which each removal meets proofs that its own operation has committed, a
rollback removes or changes only proofs of its own melt exactly when, if it can remove the proofs
of its writer, the melt has committed them. -/
theorem rollbacks_touch_own_iff (env : Env) (backends : Backends) (keysets : Keysets)
    (actions : List Action)
    (h : Along (World.step env backends) RemovesCommitted (World.init keysets) actions)
    (task : RollbackTask) :
    TouchesOwn ⟨.melt, task.operationId⟩ (World.reached env backends keysets actions).db
        (World.reached env backends keysets (actions ++ [.rollback task])).db ↔
      RemovesCommitted (World.reached env backends keysets actions) (.rollback task) := by
  rw [World.reached, World.reached, run_append, run_cons, run_nil]
  exact (writersInv_run h).touchesOwn_iff task

/-- The melt has failed before its commit; the swap holds the input when the rollback runs. -/
def sampleTaken : List Action :=
  sampleFailedMelt ++ [.setupSwap 0 ⟨sampleInputs, [sampleMessage 8 20]⟩]

/-- The rollback of the failed melt deletes the pending input of the swap. -/
theorem rollback_removes_swap_input :
    (World.reached sampleEnv (fun _ _ => true) [sampleKeyset] sampleTaken).rollbacks =
        [⟨3, [(sampleY, none)]⟩] ∧
      (World.reached sampleEnv (fun _ _ => true) [sampleKeyset]
          sampleTaken).db.proofs.rows.map (fun r => (r.operation, r.state)) =
        [(⟨.swap, 4⟩, .pending)] ∧
      (World.reached sampleEnv (fun _ _ => true) [sampleKeyset]
        (sampleTaken ++ [sampleRollback])).db.proofs.rows = [] ∧
      ¬ TouchesOwn ⟨.melt, 3⟩
        (World.reached sampleEnv (fun _ _ => true) [sampleKeyset] sampleTaken).db
        (World.reached sampleEnv (fun _ _ => true) [sampleKeyset]
          (sampleTaken ++ [sampleRollback])).db := by
  decide +kernel

/-- The backend refuses the payment of a melt while a swap of another input is in flight. -/
def sampleRefused : List Action :=
  [.createMeltQuote sampleExternalQuote,
    .startMelt 0 samplePayment false,
    .setupSwap 0 ⟨[sampleProof 8 "b"], [sampleMessage 8 20]⟩,
    .payMelt ⟨1, [(sampleY, none)], .paying { sampleExternalQuote with state := .pending }⟩
      (sampleBackend .failed) false]

theorem rollbacks_touch_own_refused :
    Along (World.step sampleEnv fun _ _ => true) RemovesCommitted (World.init [sampleKeyset])
        sampleRefused ∧
      (World.reached sampleEnv (fun _ _ => true) [sampleKeyset]
        (sampleRefused ++ [.rollback ⟨1, [(sampleY, none)]⟩])).db.proofs.rows.map
          (fun r => (r.operation, r.state)) = [(⟨.swap, 2⟩, .pending)] ∧
      TouchesOwn ⟨.melt, 1⟩
        (World.reached sampleEnv (fun _ _ => true) [sampleKeyset] sampleRefused).db
        (World.reached sampleEnv (fun _ _ => true) [sampleKeyset]
          (sampleRefused ++ [.rollback ⟨1, [(sampleY, none)]⟩])).db :=
  ⟨by decide +kernel, by decide +kernel,
    (rollbacks_touch_own_iff sampleEnv (fun _ _ => true) [sampleKeyset] sampleRefused
      (by decide +kernel) ⟨1, [(sampleY, none)]⟩).mpr (by decide +kernel)⟩

end Cdk
