import Cdk.Mint.QuoteLedger

/-!
# Who holds which proof

Compensations, recoveries and rollbacks delete proofs by their keys. In a run in
which each of them only meets proofs that its own operation has stored, a swap
between its transactions holds its inputs, and so does a melt that waits for its
payment. The identifiers of operations keep the tasks apart.
-/

namespace Cdk

open Lib

/-- The proofs with the given keys that may be deleted were stored by the given operation. -/
def Db.Owns (db : Db) (ys : List PublicKey) (operation : Operation) : Prop :=
  ∀ r ∈ db.proofs.rows, Db.removable ys r = true → r.operation = operation

instance (db : Db) (ys : List PublicKey) (operation : Operation) :
    Decidable (db.Owns ys operation) :=
  inferInstanceAs (Decidable (∀ r ∈ db.proofs.rows, _))

/-- The proofs that a step may delete were stored by the operation that deletes them. -/
def OwnProofs (w : World) (a : Action) : Prop :=
  match a with
  | .compensate task _ => w.db.Owns task.saga.inputYs ⟨.swap, task.saga.operationId⟩
  | .rollback task => w.db.Owns (task.writer.withOriginal none) ⟨.melt, task.operationId⟩
  | _ => True

instance (w : World) (a : Action) : Decidable (OwnProofs w a) :=
  match a with
  | .compensate task _ =>
      inferInstanceAs (Decidable (w.db.Owns task.saga.inputYs ⟨.swap, task.saga.operationId⟩))
  | .rollback task =>
      inferInstanceAs (Decidable (w.db.Owns (task.writer.withOriginal none)
        ⟨.melt, task.operationId⟩))
  | .createMintQuote _ | .createMeltQuote _ | .notifyPayment _ | .checkPaid _ _ | .issue _ _
  | .setupSwap _ _ | .signSwap _ _ | .finalizeSwap _ _ | .deleteSaga _ _ | .startMelt _ _ _
  | .payMelt _ _ _ | .signChange _ _ | .restart _ | .rotateKeyset _ => .isTrue trivial

/-! ## Identifiers of operations -/

namespace World

/-- The operations of swaps in flight and of swaps that are being undone. -/
def swapIds (w : World) : List Uuid :=
  w.swaps.map (fun task => task.setup.operationId) ++
    w.compensations.map fun task => task.saga.operationId

/-- The operations of melts in flight and of melts that are rolled back. -/
def meltIds (w : World) : List Uuid :=
  w.melts.map MeltTask.operationId ++ w.rollbacks.map RollbackTask.operationId

end World

/-- Operations are named once and below the counter. -/
structure OperationIds (w : World) : Prop where
  proofs : ∀ r ∈ w.db.proofs.rows, r.operation.id < w.nextId
  sagas : ∀ s ∈ w.db.sagas.rows, s.operationId < w.nextId
  swaps : w.swapIds.Nodup
  swapsOld : ∀ i ∈ w.swapIds, i < w.nextId
  melts : w.meltIds.Nodup
  meltsOld : ∀ i ∈ w.meltIds, i < w.nextId

section Lists

variable {α β : Type} [DecidableEq α]

theorem nodup_of_subperm {l l' : List β} (h : l.Subperm l') (hn : l'.Nodup) : l.Nodup := by
  obtain ⟨l₀, hp, hs⟩ := h
  exact hp.nodup_iff.mp (hs.nodup hn)

/-- Replacing a task by one of the same operation. -/
theorem map_erase_append (f : α → β) {l : List α} {x : α} (y : α) (hx : x ∈ l) (hy : f y = f x) :
    ((l.erase x ++ [y]).map f).Perm (l.map f) := by
  rw [List.map_append, List.map_singleton, hy]
  exact List.perm_append_comm.trans ((List.perm_cons_erase hx).map f).symm

/-- Moving a task to another list. -/
theorem map_erase_move {γ : Type} (f : α → β) (g : γ → β) {l : List α} (l' : List γ) {x : α}
    (y : γ) (hx : x ∈ l) (hy : g y = f x) :
    ((l.erase x).map f ++ (l' ++ [y]).map g).Perm (l.map f ++ l'.map g) := by
  have hl : (l.map f).Perm (f x :: (l.erase x).map f) := (List.perm_cons_erase hx).map f
  rw [List.map_append, List.map_singleton, hy, ← List.append_assoc]
  exact (List.perm_append_singleton _ _).trans (hl.symm.append_right _)

theorem map_erase_subperm {f : α → β} (l : List α) (x : α) :
    ((l.erase x).map f).Subperm (l.map f) :=
  (List.erase_sublist.map f).subperm

end Lists

section Steps

variable {env : Env} {backends : Backends} {w w' : World} {a : Action}

private theorem deleteSagaUnless_sagas {keep : Bool} {operationId : Uuid} {db : Db} {s : Saga}
    (h : s ∈ (deleteSagaUnless keep operationId db).sagas.rows) : s ∈ db.sagas.rows := by
  unfold deleteSagaUnless at h
  split at h
  · exact h
  · exact (Table.mem_delete.mp h).1

theorem Move.nextId_le (h : Move env w a w') : w.nextId ≤ w'.nextId := by
  cases h <;> first | exact Nat.le_refl _ | exact Nat.le_succ _

private theorem changeTask_ids (operationId : Uuid) (writer : ProofWriter)
    (change : Option PendingChange) :
    ((World.changeTask operationId writer change).map MeltTask.operationId).Subperm
      [operationId] := by
  cases change with
  | none => exact List.nil_subperm
  | some c => exact .refl _

/-- The operations of the swaps after a step. -/
theorem Move.swapIds (h : Move env w a w') :
    w'.swapIds.Subperm w.swapIds ∨
      (w'.swapIds.Subperm (w.swapIds ++ [w.nextId]) ∧ w'.nextId = w.nextId + 1) ∨
      w'.swapIds = w.db.sagas.rows.map Saga.operationId := by
  have hdrop : ∀ task : SwapTask, (((w.swaps.erase task).map fun task => task.setup.operationId) ++
      w.compensations.map fun task => task.saga.operationId).Subperm w.swapIds :=
    fun task => (map_erase_subperm _ task).append (.refl _)
  have hforget : ∀ task : Compensation, ((w.swaps.map fun task => task.setup.operationId) ++
      (w.compensations.erase task).map fun task => task.saga.operationId).Subperm w.swapIds :=
    fun task => (List.Subperm.refl _).append (map_erase_subperm _ task)
  have hmark : ∀ task ∈ w.compensations, ((w.swaps.map fun task => task.setup.operationId) ++
      (w.compensations.erase task ++ [{ task with removed := true }]).map
        fun task : Compensation => task.saga.operationId).Subperm w.swapIds :=
    fun task htask => ((map_erase_append (fun task : Compensation => task.saga.operationId)
      { task with removed := true } htask rfl).append_left _).subperm
  cases h with
  | setupSwap request setup rows db' hid h =>
      refine .inr (.inl ⟨?_, rfl⟩)
      have hp : (w.swaps.map (fun task => task.setup.operationId) ++ [w.nextId] ++
          w.compensations.map fun task => task.saga.operationId).Perm (w.swapIds ++ [w.nextId]) := by
        rw [World.swapIds, List.append_assoc, List.append_assoc]
        exact List.perm_append_comm.append_left _
      simpa [World.swapIds, World.tick, hid] using hp.subperm
  | signSwap task signatures htask hsign =>
      exact .inl ((map_erase_append (fun task : SwapTask => task.setup.operationId)
        { task with signatures := some signatures } htask rfl).append_right _).subperm
  | dropSwap task htask => exact .inl (hdrop task)
  | failSwap task htask =>
      exact .inl (map_erase_move (fun task : SwapTask => task.setup.operationId)
        (fun task : Compensation => task.saga.operationId) w.compensations
        ⟨task.setup.saga, false, false⟩ htask rfl).subperm
  | finalizeSwap task signatures stored keepSaga htask hsigned h => exact .inl (hdrop task)
  | compensate task db' htask hremoved h => exact .inl (hmark task htask)
  | skipRecovery task htask hremoved => exact .inl (hforget task)
  | skipCompensation task htask hremoved => exact .inl (hmark task htask)
  | deleteSaga task fails htask hremoved => exact .inl (hforget task)
  | restart check db' h =>
      refine .inr (.inr ?_)
      have hsagas : db'.sagas = w.db.sagas := by rw [h.frame]
      simp [World.swapIds, hsagas, Function.comp_def]
  | crash _ => exact .inl List.nil_subperm
  | _ => exact .inl (List.Subperm.refl w.swapIds)

/-- The operations of the melts after a step. -/
theorem Move.meltIds (h : Move env w a w') :
    w'.meltIds.Subperm w.meltIds ∨
      (w'.meltIds.Subperm (w.meltIds ++ [w.nextId]) ∧ w'.nextId = w.nextId + 1) := by
  have hnew : ∀ ids : List Uuid, ids.Subperm [w.nextId] →
      (w.melts.map MeltTask.operationId ++ ids ++
        w.rollbacks.map RollbackTask.operationId).Subperm (w.meltIds ++ [w.nextId]) := by
    intro ids hids
    rw [World.meltIds, List.append_assoc, List.append_assoc]
    exact (List.Subperm.refl _).append
      ((List.perm_append_comm.subperm).trans ((List.Subperm.refl _).append hids))
  have hend : ∀ task : MeltTask, ((w.melts.erase task).map MeltTask.operationId ++
      w.rollbacks.map RollbackTask.operationId).Subperm w.meltIds :=
    fun task => (map_erase_subperm _ task).append (.refl _)
  cases h with
  | startMelt request quote rows writer db' h hgood =>
      refine .inr ⟨?_, rfl⟩
      simpa [World.meltIds, World.tick] using hnew [w.nextId] (.refl _)
  | settleInternally request quote rows mintQuote reserved credited change ys writer db' hreserved
      hcredit hsettled hgood =>
      refine .inr ⟨?_, rfl⟩
      simpa [World.meltIds, World.tick] using hnew _ (changeTask_ids w.nextId writer change)
  | failMelt writer hgood =>
      refine .inr ⟨?_, rfl⟩
      simp [World.meltIds, World.tick, World.spawnRollback, List.Subperm.refl]
  | endMelt task htask => exact .inl (hend task)
  | releaseMelt task writer htask hgood =>
      exact .inl (map_erase_move MeltTask.operationId RollbackTask.operationId w.rollbacks
        ⟨task.operationId, writer⟩ htask rfl).subperm
  | settleMelt task quote spent change ys writer db' htask hphase h hgood =>
      refine .inl (List.Subperm.append ?_ (.refl _))
      rw [List.map_append]
      apply ((List.Subperm.refl _).append (changeTask_ids task.operationId writer change)).trans
      simpa using (map_erase_append MeltTask.operationId task htask rfl).subperm
  | storeChange task change signatures db' htask hphase hsign h => exact .inl (hend task)
  | rollback task htask => exact .inl ((List.Subperm.refl _).append (map_erase_subperm _ task))
  | restart check db' h => exact .inl List.nil_subperm
  | crash _ => exact .inl List.nil_subperm
  | _ => exact .inl (List.Subperm.refl w.meltIds)

/-- No step renames a saga, and a new saga belongs to the swap that starts. -/
theorem Move.sagas (h : Move env w a w') : ∀ s ∈ w'.db.sagas.rows,
    s ∈ w.db.sagas.rows ∨ ∃ request setup rows, s = setup.saga ∧ s.operationId = w.nextId ∧
      w'.nextId = w.nextId + 1 ∧ SwapReserved env request setup w.db w'.db rows := by
  intro s hs
  have hframe : w'.db.sagas = w.db.sagas → s ∈ w.db.sagas.rows ∨ ∃ request setup rows,
      s = setup.saga ∧ s.operationId = w.nextId ∧ w'.nextId = w.nextId + 1 ∧
        SwapReserved env request setup w.db w'.db rows := fun h => .inl (h ▸ hs)
  cases h with
  | credit db' h => exact hframe (credits_same Db.sagas (fun _ _ _ => rfl) h)
  | issue quote total db' h => exact hframe (by rw [World.tick, h.frame])
  | setupSwap request setup rows db' hid h =>
      change s ∈ db'.sagas.rows at hs
      rw [h.sagas, List.mem_append, List.mem_singleton] at hs
      rcases hs with hs | rfl
      · exact .inl hs
      · exact .inr ⟨request, setup, rows, rfl, hid, rfl, h⟩
  | finalizeSwap task signatures stored keepSaga htask hsigned h =>
      refine .inl ?_
      have hstored : stored.sagas = w.db.sagas := by rw [h.frame]
      rw [← hstored]
      exact deleteSagaUnless_sagas hs
  | compensate task db' htask hremoved h => exact hframe (by rw [h.frame])
  | deleteSaga task fails htask hremoved => exact .inl (deleteSagaUnless_sagas hs)
  | startMelt request quote rows writer db' h hgood => exact hframe (by rw [World.tick, h.frame])
  | settleInternally request quote rows mintQuote reserved credited change ys writer db' hreserved
      hcredit hsettled hgood =>
      exact hframe (by rw [World.tick, hsettled.frame, hcredit.frame, hreserved.frame])
  | settleMelt task quote spent change ys writer db' htask hphase h hgood =>
      exact hframe (by rw [h.frame])
  | storeChange task change signatures db' htask hphase hsign h => exact hframe (by rw [h.frame])
  | rollback task htask =>
      obtain ⟨t, ht⟩ := rollback_frame task.writer w.db
      exact hframe (by rw [World.rollback, ht])
  | restart check db' h => exact hframe (by rw [h.frame])
  | _ => exact hframe rfl

theorem Move.operationIds (h : Move env w a w') (hst : Stored env w) (hw : OperationIds w) :
    OperationIds w' := by
  have hnext := h.nextId_le
  have hsub : ∀ {l l' : List Uuid}, l.Subperm l' → (∀ i ∈ l', i < w.nextId) →
      ∀ i ∈ l, i < w'.nextId := fun hs hl i hi => Nat.lt_of_lt_of_le (hl i (hs.subset hi)) hnext
  have hnew : ∀ {l l' : List Uuid}, l.Subperm (l' ++ [w.nextId]) → w'.nextId = w.nextId + 1 →
      l'.Nodup → (∀ i ∈ l', i < w.nextId) → l.Nodup ∧ ∀ i ∈ l, i < w'.nextId := by
    intro l l' hs hn hnd hl
    constructor
    · refine nodup_of_subperm hs (List.nodup_append.mpr ⟨hnd, List.nodup_singleton _, ?_⟩)
      intro i hi j hj
      rw [List.mem_singleton.mp hj]
      exact Nat.ne_of_lt (hl i hi)
    · intro i hi
      rw [hn]
      rcases List.mem_append.mp (hs.subset hi) with hi | hi
      · exact Nat.lt_succ_of_lt (hl i hi)
      · rw [List.mem_singleton.mp hi]
        exact Nat.lt_succ_self _
  have hsagas : ∀ s ∈ w'.db.sagas.rows, s.operationId < w'.nextId := by
    intro s hs
    rcases h.sagas s hs with hs | ⟨_, _, _, -, hid, hn, -⟩
    · exact Nat.lt_of_lt_of_le (hw.sagas s hs) hnext
    · rw [hid, hn]
      exact Nat.lt_succ_self _
  have hproofs : ∀ r ∈ w'.db.proofs.rows, r.operation.id < w'.nextId := by
    have hrel : (∀ r ∈ w.db.proofs.rows, r.operation.id < w'.nextId) →
        ∀ r ∈ w'.db.proofs.rows, r.operation.id < w'.nextId := by
      refine h.proofs_related hst (R := fun db db' =>
        (∀ r ∈ db.proofs.rows, r.operation.id < w'.nextId) →
          ∀ r ∈ db'.proofs.rows, r.operation.id < w'.nextId) (fun _ _ _ h₁ h₂ h => h₂ (h₁ h)) ?_
      intro db db' hstep hold r hr
      cases hstep with
      | same h => exact hold r (h ▸ hr)
      | reserve inputs quoteId operation rows hid hn hreserved hrows =>
          rw [hrows, List.mem_append] at hr
          rcases hr with hr | hr
          · exact hold r hr
          · rw [(hreserved.pending r hr).2.2, hid, hn]
            exact Nat.lt_succ_self _
      | spend ys hallowed hproofs =>
          rw [hproofs] at hr
          obtain ⟨r₀, hr₀, rfl⟩ := List.mem_map.mp hr
          rw [Db.setState_operation]
          exact hold r₀ hr₀
      | compensate _ _ _ _ _ _ hproofs =>
          rw [hproofs, Table.mem_delete] at hr
          exact hold r hr.1
      | rollback _ _ _ _ hproofs =>
          rw [hproofs, Table.mem_delete] at hr
          exact hold r hr.1
    exact hrel fun r hr => Nat.lt_of_lt_of_le (hw.proofs r hr) hnext
  have hswaps : w'.swapIds.Nodup ∧ ∀ i ∈ w'.swapIds, i < w'.nextId := by
    rcases h.swapIds with hs | ⟨hs, hn⟩ | hs
    · exact ⟨nodup_of_subperm hs hw.swaps, hsub hs hw.swapsOld⟩
    · exact hnew hs hn hw.swaps hw.swapsOld
    · rw [hs]
      refine ⟨w.db.sagas.nodup, ?_⟩
      intro i hi
      obtain ⟨s, hs, rfl⟩ := List.mem_map.mp hi
      exact Nat.lt_of_lt_of_le (hw.sagas s hs) hnext
  have hmelts : w'.meltIds.Nodup ∧ ∀ i ∈ w'.meltIds, i < w'.nextId := by
    rcases h.meltIds with hs | ⟨hs, hn⟩
    · exact ⟨nodup_of_subperm hs hw.melts, hsub hs hw.meltsOld⟩
    · exact hnew hs hn hw.melts hw.meltsOld
  exact ⟨hproofs, hsagas, hswaps.1, hswaps.2, hmelts.1, hmelts.2⟩

theorem operationIds_init (keysets : Keysets) : OperationIds (World.init keysets) := by
  constructor <;> simp [World.init, Db.empty, World.swapIds, World.meltIds]

end Steps

/-! ## The proofs of one operation -/

/-- The amount of the proofs that an operation has stored. -/
def Db.opAmount (operation : Operation) (db : Db) : Nat :=
  db.proofs.sum fun r => if r.operation = operation then r.amount.toNat else 0

/-- The proofs of an operation may change their states but stay. -/
structure OpKept (operation : Operation) (db db' : Db) : Prop where
  kept : ∀ r ∈ db.proofs.rows, r.operation = operation →
    ∃ r' ∈ db'.proofs.rows, r'.y = r.y ∧ r'.operation = operation ∧ r'.quoteId = r.quoteId
  origin : ∀ r' ∈ db'.proofs.rows, r'.operation = operation →
    ∃ r ∈ db.proofs.rows, r.y = r'.y ∧ r.operation = operation ∧ r.quoteId = r'.quoteId
  amount : db'.opAmount operation = db.opAmount operation

namespace OpKept

variable {env : Env} {operation : Operation} {db db' db'' : Db}

theorem of_eq (h : db'.proofs = db.proofs) : OpKept operation db db' where
  kept r hr ho := ⟨r, h ▸ hr, rfl, ho, rfl⟩
  origin r hr ho := ⟨r, h ▸ hr, rfl, ho, rfl⟩
  amount := by rw [Db.opAmount, Db.opAmount, h]

theorem trans (h : OpKept operation db db') (h' : OpKept operation db' db'') :
    OpKept operation db db'' where
  kept r hr ho := by
    obtain ⟨r₁, hr₁, hy₁, ho₁, hq₁⟩ := h.kept r hr ho
    obtain ⟨r₂, hr₂, hy₂, ho₂, hq₂⟩ := h'.kept r₁ hr₁ ho₁
    exact ⟨r₂, hr₂, hy₂.trans hy₁, ho₂, hq₂.trans hq₁⟩
  origin r hr ho := by
    obtain ⟨r₁, hr₁, hy₁, ho₁, hq₁⟩ := h'.origin r hr ho
    obtain ⟨r₂, hr₂, hy₂, ho₂, hq₂⟩ := h.origin r₁ hr₁ ho₁
    exact ⟨r₂, hr₂, hy₂.trans hy₁, ho₂, hq₂.trans hq₁⟩
  amount := h'.amount.trans h.amount

/-- Another operation stores proofs. -/
theorem of_append {rows : List ProofRow} (hrows : db'.proofs.rows = db.proofs.rows ++ rows)
    (hother : ∀ r ∈ rows, r.operation ≠ operation) : OpKept operation db db' where
  kept r hr ho := ⟨r, by rw [hrows]; exact List.mem_append_left _ hr, rfl, ho, rfl⟩
  origin r hr ho := by
    rw [hrows, List.mem_append] at hr
    rcases hr with hr | hr
    · exact ⟨r, hr, rfl, ho, rfl⟩
    · exact absurd ho (hother r hr)
  amount := by
    rw [Db.opAmount, Db.opAmount, Table.sum_of_rows _ hrows]
    have hzero : (rows.map fun r => if r.operation = operation then r.amount.toNat else 0) =
        rows.map fun _ => 0 := List.map_congr_left fun r hr => if_neg (hother r hr)
    simp [hzero]

/-- Proofs change their states. -/
theorem of_states {ys : List PublicKey} {new : State}
    (h : db'.proofs = db.proofs.update (Db.setState ys new) (Db.setState_y ys new)) :
    OpKept operation db db' where
  kept r hr ho := by
    refine ⟨Db.setState ys new r, ?_, by simp, by simpa using ho, by simp⟩
    rw [h]
    exact List.mem_map_of_mem hr
  origin r' hr' ho := by
    rw [h] at hr'
    obtain ⟨r, hr, rfl⟩ := List.mem_map.mp hr'
    exact ⟨r, hr, by simp, by simpa using ho, by simp⟩
  amount := by
    rw [Db.opAmount, h, Table.sum_update]
    exact Table.sum_congr fun r _ => by simp

/-- Proofs of other operations are deleted. -/
theorem of_deleted {p : ProofRow → Bool} (h : db'.proofs = db.proofs.delete p)
    (hother : ∀ r ∈ db.proofs.rows, p r = true → r.operation ≠ operation) :
    OpKept operation db db' where
  kept r hr ho := by
    refine ⟨r, ?_, rfl, ho, rfl⟩
    rw [h, Table.mem_delete]
    exact ⟨hr, by simpa using fun hp => hother r hr hp ho⟩
  origin r hr ho := by
    rw [h, Table.mem_delete] at hr
    exact ⟨r, hr.1, rfl, ho, rfl⟩
  amount := by
    rw [Db.opAmount, h]
    exact Table.sum_delete_eq fun r hr hp => if_neg (hother r hr hp)

end OpKept

section Kept

variable {env : Env} {backends : Backends} {w w' : World} {a : Action}

/-- A step keeps the proofs of every earlier operation of which it deletes none. -/
theorem Move.opKept (h : Move env w a w') (hst : Stored env w) {operation : Operation}
    (hold : operation.id < w.nextId)
    (hswap : ∀ task ∈ w.compensations, task.removed = false → a = .compensate task false →
      { task with removed := true } ∈ w'.compensations →
      ∀ r ∈ w.db.proofs.rows, Db.removable task.saga.inputYs r = true → r.operation ≠ operation)
    (hmelt : ∀ task ∈ w.rollbacks, a = .rollback task → ∀ r ∈ w.db.proofs.rows,
      Db.removable (task.writer.withOriginal none) r = true → r.operation ≠ operation) :
    OpKept operation w.db w'.db := by
  refine h.proofs_related hst (fun _ _ _ => OpKept.trans) ?_
  intro db db' hstep
  cases hstep with
  | same h => exact .of_eq h
  | reserve inputs quoteId new rows hid hnext hreserved hrows =>
      refine .of_append hrows fun r hr heq => ?_
      rw [← heq, (hreserved.pending r hr).2.2, hid] at hold
      exact Nat.lt_irrefl _ hold
  | spend ys hallowed hproofs => exact .of_states hproofs
  | compensate task ha htask hremoved hafter hdb hproofs =>
      rw [hdb] at hproofs ⊢
      exact .of_deleted hproofs (hswap task htask hremoved ha hafter)
  | rollback task ha htask hdb hproofs =>
      rw [hdb] at hproofs ⊢
      exact .of_deleted hproofs (hmelt task htask ha)

/-- A step that deletes own proofs keeps the proofs of operations that it does not undo. -/
theorem Move.opKept_of_own (h : Move env w a w') (hst : Stored env w) (hown : OwnProofs w a)
    {operation : Operation} (hold : operation.id < w.nextId)
    (hswap : ∀ task ∈ w.compensations, operation ≠ ⟨.swap, task.saga.operationId⟩)
    (hmelt : ∀ task ∈ w.rollbacks, operation ≠ ⟨.melt, task.operationId⟩) :
    OpKept operation w.db w'.db := by
  refine h.opKept hst hold ?_ ?_
  · rintro task htask - rfl - r hr hp heq
    exact hswap task htask (heq ▸ hown r hr hp)
  · rintro task htask rfl r hr hp heq
    exact hmelt task htask (heq ▸ hown r hr hp)

end Kept

end Cdk
