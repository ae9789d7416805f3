import Cdk.Mint.Ownership

/-!
# What compensations and recoveries delete

A saga names the rows of its swap by their keys, and whoever undoes the swap
deletes whatever is stored under these keys. As long as a saga is deleted right
after its rows were removed, the rows under its keys are its own. A saga that
outlives its rows is undone once more by the next start, and then its keys may
belong to another swap or to a melt.
-/

namespace Cdk

open Lib

/-- The swap that a saga belongs to. -/
def Saga.operation (saga : Saga) : Operation := ⟨.swap, saga.operationId⟩

/-- The rows that a step has deleted were stored by one operation. -/
structure DeletesOwn (operation : Operation) (db db' : Db) : Prop where
  proofs : ∀ r ∈ db.proofs.rows, r ∉ db'.proofs.rows → r.operation = operation
  messages : ∀ r ∈ db.blindSignatures.rows, r ∉ db'.blindSignatures.rows →
    r.operation = some operation

instance (operation : Operation) (db db' : Db) : Decidable (DeletesOwn operation db db') :=
  decidable_of_iff
    ((∀ r ∈ db.proofs.rows, r ∉ db'.proofs.rows → r.operation = operation) ∧
      ∀ r ∈ db.blindSignatures.rows, r ∉ db'.blindSignatures.rows →
        r.operation = some operation)
    ⟨fun h => ⟨h.1, h.2⟩, fun h => ⟨h.proofs, h.messages⟩⟩

/-- A saga is deleted right after its rows, and rollbacks delete own proofs. -/
def SagasDeleted (w : World) (a : Action) : Prop :=
  match a with
  | .deleteSaga _ fails => fails = false
  | .restart _ => ∀ task ∈ w.compensations, task.removed = false
  | .rollback task => w.db.Owns (task.writer.withOriginal none) ⟨.melt, task.operationId⟩
  | _ => True

instance (w : World) (a : Action) : Decidable (SagasDeleted w a) :=
  match a with
  | .deleteSaga _ fails => inferInstanceAs (Decidable (fails = false))
  | .restart _ => inferInstanceAs (Decidable (∀ task ∈ w.compensations, task.removed = false))
  | .rollback task =>
      inferInstanceAs (Decidable (w.db.Owns (task.writer.withOriginal none)
        ⟨.melt, task.operationId⟩))
  | .createMintQuote _ | .createMeltQuote _ | .notifyPayment _ | .checkPaid _ _ | .issue _ _
  | .setupSwap _ _ | .signSwap _ _ | .finalizeSwap _ _ | .compensate _ _ | .startMelt _ _ _
  | .payMelt _ _ _ | .signChange _ _ | .rotateKeyset _ => .isTrue trivial

/-- The rows under the keys of a saga are those of its swap. -/
structure SagaHeld (db : Db) (saga : Saga) : Prop where
  proofs : ∀ y ∈ saga.inputYs, ∃ r ∈ db.proofs.rows, r.y = y ∧ r.operation = saga.operation
  messages : ∀ secret ∈ saga.blindedSecrets, ∃ r ∈ db.blindSignatures.rows,
    r.blindedMessage = secret ∧ r.quoteId = none ∧ r.operation = some saga.operation

/-- Every saga whose rows have not been removed holds them, and every swap that is in flight or
about to be undone has its saga. -/
structure SagasHeld (w : World) : Prop where
  swaps : ∀ task ∈ w.swaps, task.setup.saga ∈ w.db.sagas.rows
  pending : ∀ task ∈ w.compensations, task.removed = false → task.saga ∈ w.db.sagas.rows
  held : ∀ saga ∈ w.db.sagas.rows, (∀ task ∈ w.compensations,
    task.saga.operationId = saga.operationId → task.removed = false) → SagaHeld w.db saga

/-! ## One saga -/

section Saga

variable {db db' : Db} {saga : Saga}

theorem SagaHeld.owns (h : SagaHeld db saga) : db.Owns saga.inputYs saga.operation := by
  intro r hr hp
  have hp' : r.y ∈ saga.inputYs ∧ ¬ r.state = .spent := by simpa [Db.removable] using hp
  obtain ⟨r', hr', hkey, hop⟩ := h.proofs r.y hp'.1
  rw [Table.eq_of_key hr hr' hkey.symm]
  exact hop

theorem SagaHeld.ownsMessages (h : SagaHeld db saga) {r : SignatureRow}
    (hr : r ∈ db.blindSignatures.rows) (hp : Db.unsigned saga.blindedSecrets r = true) :
    r.operation = some saga.operation := by
  have hp' : r.blindedMessage ∈ saga.blindedSecrets ∧ r.c = none := by
    simpa [Db.unsigned] using hp
  obtain ⟨r', hr', hkey, -, hop⟩ := h.messages r.blindedMessage hp'.1
  rw [Table.eq_of_key hr hr' hkey.symm]
  exact hop

/-- Undoing a swap whose saga holds its rows deletes own rows only. -/
theorem SagaHeld.deletesOwn (h : SagaHeld db saga) (hremoved : SetupRemoved saga db db') :
    DeletesOwn saga.operation db db' := by
  constructor
  · intro r hr hgone
    apply h.owns r hr
    by_contra hp
    apply hgone
    rw [hremoved.proofs, Table.mem_delete]
    exact ⟨hr, by simpa using hp⟩
  · intro r hr hgone
    apply h.ownsMessages hr
    by_contra hp
    apply hgone
    rw [hremoved.signatures, Table.mem_delete]
    exact ⟨hr, by simpa using hp⟩

end Saga

/-! ## Messages -/

section Steps

variable {env : Env} {backends : Backends} {w w' : World} {a : Action}

private theorem not_reserved {r : SignatureRow} (hq : r.quoteId = none) (quoteId : QuoteId) :
    Db.reservedFor quoteId r = false := by
  simp [Db.reservedFor, hq]

/-- A message of a swap stays, signed or not, unless its swap is undone. -/
theorem Move.messageKept (h : Move env w a w') {r : SignatureRow}
    (hr : r ∈ w.db.blindSignatures.rows) (hq : r.quoteId = none)
    (hfree : ∀ task ∈ w.compensations, task.removed = false →
      { task with removed := true } ∈ w'.compensations →
      Db.unsigned task.saga.blindedSecrets r = false) :
    ∃ r' ∈ w'.db.blindSignatures.rows, r'.blindedMessage = r.blindedMessage ∧
      r'.quoteId = none ∧ r'.operation = r.operation := by
  have hstay : ∀ db : Db, r ∈ db.blindSignatures.rows → ∃ r' ∈ db.blindSignatures.rows,
      r'.blindedMessage = r.blindedMessage ∧ r'.quoteId = none ∧ r'.operation = r.operation :=
    fun db hmem => ⟨r, hmem, rfl, hq, rfl⟩
  have hsettle : ∀ {quoteId : QuoteId} {spent : Amount} {change : Option PendingChange}
      {ys : List PublicKey} {db : Db}, MeltSettled env quoteId spent change ys db w'.db →
      r ∈ db.blindSignatures.rows → r ∈ w'.db.blindSignatures.rows := by
    intro quoteId spent change ys db h hmem
    rw [h.signatures, Table.mem_delete]
    exact ⟨hmem, by simp [not_reserved hq]⟩
  cases h with
  | credit db' h => exact hstay _ (credits_same Db.blindSignatures (fun _ _ _ => rfl) h ▸ hr)
  | issue quote total db' h =>
      obtain ⟨r', hr', hkey, hq', hop⟩ := h.kept r hr
      exact ⟨r', hr', hkey, hq'.trans hq, hop⟩
  | setupSwap request setup rows db' hid h =>
      apply hstay db'
      rw [h.signatures]
      exact List.mem_append_left _ hr
  | finalizeSwap task signatures stored keepSaga htask hsigned h =>
      obtain ⟨t, ht⟩ := deleteSagaUnless_frame keepSaga task.setup.operationId stored
      obtain ⟨u, mid, hadd, hsigs⟩ := h.signed
      obtain ⟨r', hr', hkey, hq', hop⟩ := (Db.addBlindSignatures_rows hadd).kept r hr
      refine ⟨r', ?_, hkey, hq'.trans hq, hop⟩
      rw [ht]
      exact hsigs ▸ hr'
  | compensate task db' htask hremoved h =>
      apply hstay db'
      rw [h.signatures, Table.mem_delete]
      exact ⟨hr, hfree task htask hremoved (by simp)⟩
  | deleteSaga task fails htask hremoved =>
      obtain ⟨t, ht⟩ := deleteSagaUnless_frame fails task.saga.operationId w.db
      rw [World.deleteSaga, ht]
      exact hstay _ hr
  | startMelt request quote rows writer db' h hgood =>
      apply hstay db'
      rw [h.signatures]
      exact List.mem_append_left _ hr
  | settleInternally request quote rows mintQuote reserved credited change ys writer db' hreserved
      hcredit hsettled hgood =>
      have hcredited : credited.blindSignatures = reserved.blindSignatures := by
        rw [hcredit.frame]
      refine hstay db' (hsettle hsettled ?_)
      rw [hcredited, hreserved.signatures]
      exact List.mem_append_left _ hr
  | settleMelt task quote spent change ys writer db' htask hphase h hgood =>
      exact hstay db' (hsettle h hr)
  | storeChange task change signatures db' htask hphase hsign h =>
      obtain ⟨u, mid, hadd, hsigs⟩ := h.signed
      obtain ⟨r', hr', hkey, hq', hop⟩ := (Db.addBlindSignatures_rows hadd).kept r hr
      refine ⟨r', ?_, hkey, hq'.trans hq, hop⟩
      change r' ∈ db'.blindSignatures.rows
      rw [hsigs, Table.mem_delete]
      exact ⟨hr', not_reserved (hq'.trans hq) _⟩
  | rollback task htask =>
      obtain ⟨t, ht⟩ := rollback_frame task.writer w.db
      rw [World.rollback, ht]
      exact hstay _ hr
  | restart check db' h =>
      rcases h.kept r hr with hmem | ⟨-, hsome⟩
      · exact hstay db' hmem
      · simp [hq] at hsome
  | _ => exact hstay _ hr

/-! ## Sagas -/

private theorem mem_deleteSagaUnless {keep : Bool} {operationId : Uuid} {db : Db} {s : Saga}
    (hs : s ∈ db.sagas.rows) (hne : s.operationId ≠ operationId) :
    s ∈ (deleteSagaUnless keep operationId db).sagas.rows := by
  unfold deleteSagaUnless
  split
  · exact hs
  · exact Table.mem_delete.mpr ⟨hs, by simpa using hne⟩

/-- A saga stays unless its swap completes or the removal of its rows ends. -/
theorem Move.sagaKept (h : Move env w a w') {saga : Saga} (hs : saga ∈ w.db.sagas.rows) :
    saga ∈ w'.db.sagas.rows ∨
      (∃ task ∈ w.swaps, task.setup.operationId = saga.operationId ∧
        w'.swaps = w.swaps.erase task ∧ w'.compensations = w.compensations) ∨
      ∃ task ∈ w.compensations, task.removed = true ∧
        task.saga.operationId = saga.operationId ∧ w'.swaps = w.swaps ∧
        w'.compensations = w.compensations.erase task := by
  have hframe : w'.db.sagas = w.db.sagas → saga ∈ w'.db.sagas.rows := fun h => h ▸ hs
  cases h with
  | credit db' h => exact .inl (hframe (credits_same Db.sagas (fun _ _ _ => rfl) h))
  | issue quote total db' h => exact .inl (hframe (by rw [World.tick, h.frame]))
  | setupSwap request setup rows db' hid h =>
      refine .inl ?_
      change saga ∈ db'.sagas.rows
      rw [h.sagas]
      exact List.mem_append_left _ hs
  | finalizeSwap task signatures stored keepSaga htask hsigned h =>
      by_cases hid : saga.operationId = task.setup.operationId
      · exact .inr (.inl ⟨task, htask, hid.symm, rfl, rfl⟩)
      · refine .inl (mem_deleteSagaUnless ?_ hid)
        have hstored : stored.sagas = w.db.sagas := by rw [h.frame]
        exact hstored ▸ hs
  | compensate task db' htask hremoved h => exact .inl (hframe (by rw [h.frame]))
  | deleteSaga task fails htask hremoved =>
      by_cases hid : saga.operationId = task.saga.operationId
      · exact .inr (.inr ⟨task, htask, hremoved, hid.symm, rfl, rfl⟩)
      · exact .inl (mem_deleteSagaUnless hs hid)
  | startMelt request quote rows writer db' h hgood =>
      exact .inl (hframe (by rw [World.tick, h.frame]))
  | settleInternally request quote rows mintQuote reserved credited change ys writer db' hreserved
      hcredit hsettled hgood =>
      exact .inl (hframe (by rw [World.tick, hsettled.frame, hcredit.frame, hreserved.frame]))
  | settleMelt task quote spent change ys writer db' htask hphase h hgood =>
      exact .inl (hframe (by rw [h.frame]))
  | storeChange task change signatures db' htask hphase hsign h =>
      exact .inl (hframe (by rw [h.frame]))
  | rollback task htask =>
      obtain ⟨t, ht⟩ := rollback_frame task.writer w.db
      exact .inl (hframe (by rw [World.rollback, ht]))
  | restart check db' h => exact .inl (hframe (by rw [h.frame]))
  | _ => exact .inl hs

/-- A compensation that has removed its rows waits for the deletion of its saga. -/
theorem Move.removedKept (h : Move env w a w') (hdel : SagasDeleted w a) {task : Compensation}
    (htask : task ∈ w.compensations) (hremoved : task.removed = true) :
    task ∈ w'.compensations ∨
      ∀ saga ∈ w'.db.sagas.rows, saga.operationId ≠ task.saga.operationId := by
  have hother : ∀ other : Compensation, other.removed = false → task ∈ w.compensations.erase other :=
    fun other hne => (List.mem_erase_of_ne (by rintro rfl; simp [hremoved] at hne)).mpr htask
  cases h with
  | failSwap other _ => exact .inl (List.mem_append_left _ htask)
  | compensate other db' _ hne h => exact .inl (List.mem_append_left _ (hother other hne))
  | skipRecovery other _ hne => exact .inl (hother other hne)
  | skipCompensation other _ hne => exact .inl (List.mem_append_left _ (hother other hne))
  | deleteSaga other fails _ _ =>
      by_cases heq : task = other
      · subst heq
        refine .inr fun saga hsaga => ?_
        have hfails : fails = false := hdel
        rw [World.deleteSaga, deleteSagaUnless, if_neg (by simp [hfails])] at hsaga
        simpa using (Table.mem_delete.mp hsaga).2
      · exact .inl ((List.mem_erase_of_ne heq).mpr htask)
  | restart check db' h =>
      have := hdel task htask
      rw [hremoved] at this
      cases this
  | crash check =>
      have := hdel task htask
      rw [hremoved] at this
      cases this
  | _ => exact .inl htask

/-! ## Every step -/

/-- Two swaps of the same operation are the same. -/
private theorem swap_unique (hids : OperationIds w) {task task' : SwapTask} (h : task ∈ w.swaps)
    (h' : task' ∈ w.swaps) (hid : task.setup.operationId = task'.setup.operationId) :
    task = task' :=
  List.inj_on_of_nodup_map (List.nodup_append.mp hids.swaps).1 h h' hid

private theorem compensation_unique (hids : OperationIds w) {task task' : Compensation}
    (h : task ∈ w.compensations) (h' : task' ∈ w.compensations)
    (hid : task.saga.operationId = task'.saga.operationId) : task = task' :=
  List.inj_on_of_nodup_map (List.nodup_append.mp hids.swaps).2.1 h h' hid

private theorem swap_ne_compensation (hids : OperationIds w) {task : SwapTask}
    {comp : Compensation} (h : task ∈ w.swaps) (h' : comp ∈ w.compensations) :
    task.setup.operationId ≠ comp.saga.operationId :=
  (List.nodup_append.mp hids.swaps).2.2 _ (List.mem_map_of_mem h) _ (List.mem_map_of_mem h')

theorem Move.swapSagas (h : Move env w a w') (hids : OperationIds w) (hw : SagasHeld w) :
    ∀ task ∈ w'.swaps, task.setup.saga ∈ w'.db.sagas.rows := by
  have hkeep : ∀ task ∈ w.swaps, task ∈ w'.swaps → task.setup.saga ∈ w'.db.sagas.rows := by
    intro task htask hafter
    rcases h.sagaKept (hw.swaps task htask) with hs | ⟨done, hdone, hid, hswaps, -⟩ |
      ⟨comp, hcomp, -, hid, -, -⟩
    · exact hs
    · have heq := swap_unique hids hdone htask hid
      have hnd : w.swaps.Nodup := .of_map _ (List.nodup_append.mp hids.swaps).1
      rw [hswaps, heq] at hafter
      exact absurd hafter hnd.not_mem_erase
    · exact absurd hid.symm (swap_ne_compensation hids htask hcomp)
  intro task htask
  have hold := hkeep task
  cases h with
  | setupSwap request setup rows db' hid h =>
      rcases List.mem_append.mp htask with hmem | hnew
      · exact hold hmem htask
      · rw [List.mem_singleton.mp hnew]
        change setup.saga ∈ db'.sagas.rows
        rw [h.sagas]
        exact List.mem_append_right _ (List.mem_singleton.mpr rfl)
  | signSwap other signatures hother hsign =>
      rcases List.mem_append.mp htask with hmem | hnew
      · exact hold (List.mem_of_mem_erase hmem) htask
      · rw [List.mem_singleton.mp hnew]
        exact hw.swaps other hother
  | dropSwap other _ => exact hold (List.mem_of_mem_erase htask) htask
  | failSwap other _ => exact hold (List.mem_of_mem_erase htask) htask
  | finalizeSwap other _ _ _ _ _ _ => exact hold (List.mem_of_mem_erase htask) htask
  | restart _ _ _ => cases htask
  | crash _ => cases htask
  | _ => exact hold htask htask

theorem Move.pendingSagas (h : Move env w a w') (hids : OperationIds w) (hw : SagasHeld w) :
    ∀ task ∈ w'.compensations, task.removed = false → task.saga ∈ w'.db.sagas.rows := by
  have hkeep : ∀ task ∈ w.compensations, task.removed = false →
      task.saga ∈ w'.db.sagas.rows := by
    intro task htask hremoved
    rcases h.sagaKept (hw.pending task htask hremoved) with hs | ⟨done, hdone, hid, -, -⟩ |
      ⟨comp, hcomp, hdone, hid, -, -⟩
    · exact hs
    · exact absurd hid (swap_ne_compensation hids hdone htask)
    · rw [compensation_unique hids hcomp htask hid, hremoved] at hdone
      cases hdone
  intro task htask hremoved
  cases h with
  | failSwap other hother =>
      rcases List.mem_append.mp htask with hmem | hnew
      · exact hkeep task hmem hremoved
      · rw [List.mem_singleton.mp hnew]
        exact hw.swaps other hother
  | compensate other db' _ _ h =>
      rcases List.mem_append.mp htask with hmem | hnew
      · exact hkeep task (List.mem_of_mem_erase hmem) hremoved
      · rw [List.mem_singleton.mp hnew] at hremoved
        cases hremoved
  | skipRecovery other _ _ => exact hkeep task (List.mem_of_mem_erase htask) hremoved
  | skipCompensation other _ _ =>
      rcases List.mem_append.mp htask with hmem | hnew
      · exact hkeep task (List.mem_of_mem_erase hmem) hremoved
      · rw [List.mem_singleton.mp hnew] at hremoved
        cases hremoved
  | deleteSaga other _ _ _ => exact hkeep task (List.mem_of_mem_erase htask) hremoved
  | restart check db' h =>
      obtain ⟨saga, hsaga, rfl⟩ := List.mem_map.mp htask
      exact hsaga
  | crash _ => cases htask
  | _ => exact hkeep task htask hremoved

/-- The saga of a compensation that has not removed its rows holds them. -/
theorem SagasHeld.compensation (hw : SagasHeld w) (hids : OperationIds w) {task : Compensation}
    (htask : task ∈ w.compensations) (hremoved : task.removed = false) :
    SagaHeld w.db task.saga := by
  apply hw.held task.saga (hw.pending task htask hremoved)
  intro other hother hid
  rw [compensation_unique hids hother htask hid]
  exact hremoved

/-- A step keeps the rows of a saga that it does not undo. -/
theorem Move.sagaHeld (h : Move env w a w') (hst : Stored env w) (hids : OperationIds w)
    (hw : SagasHeld w) (hdel : SagasDeleted w a) {saga : Saga} (hsaga : saga ∈ w.db.sagas.rows)
    (hheld : SagaHeld w.db saga) (hafter : ∀ task ∈ w'.compensations,
      task.saga.operationId = saga.operationId → task.removed = false) :
    SagaHeld w'.db saga := by
  -- the compensation of this step, if there is one, undoes another saga
  have hother : ∀ task ∈ w.compensations, task.removed = false →
      { task with removed := true } ∈ w'.compensations → task.saga.operation ≠ saga.operation := by
    intro task _ _ hmem heq
    cases hafter _ hmem (Operation.mk.inj heq).2
  have hkept : OpKept saga.operation w.db w'.db := by
    refine h.opKept hst (hids.sagas saga hsaga) ?_ ?_
    · intro task htask hremoved _ hmem r hr hp heq
      apply hother task htask hremoved hmem
      rw [← heq]
      exact ((hw.compensation hids htask hremoved).owns r hr hp).symm
    · rintro task htask rfl r hr hp heq
      have hmelt : r.operation = ⟨.melt, task.operationId⟩ := hdel r hr hp
      rw [hmelt] at heq
      cases (Operation.mk.inj heq).1
  constructor
  · intro y hy
    obtain ⟨r, hr, hkey, hop⟩ := hheld.proofs y hy
    obtain ⟨r', hr', hkey', hop', -⟩ := hkept.kept r hr hop
    exact ⟨r', hr', hkey'.trans hkey, hop'⟩
  · intro secret hsecret
    obtain ⟨r, hr, hkey, hq, hop⟩ := hheld.messages secret hsecret
    obtain ⟨r', hr', hkey', hq', hop'⟩ := h.messageKept hr hq fun task htask hremoved hmem => by
      by_contra hp
      refine hother task htask hremoved hmem (Option.some.inj ?_)
      rw [← hop]
      exact ((hw.compensation hids htask hremoved).ownsMessages hr (by simpa using hp)).symm
    exact ⟨r', hr', hkey'.trans hkey, hq', hop'.trans hop⟩

/-- The first transaction of a swap stores the rows of its saga. -/
theorem SwapReserved.sagaHeld {request : SwapRequest} {setup : SwapSetup} {db db' : Db}
    {rows : List ProofRow} (h : SwapReserved env request setup db db' rows) :
    SagaHeld db' setup.saga := by
  constructor
  · intro y hy
    have hys : y ∈ rows.map ProofRow.y := h.ys ▸ hy
    obtain ⟨r, hr, rfl⟩ := List.mem_map.mp hys
    exact ⟨r, by rw [h.proofs]; exact List.mem_append_right _ hr, rfl,
      (h.reserved.pending r hr).2.2⟩
  · intro secret hsecret
    have hmem : secret ∈ setup.blindedMessages.map BlindedMessage.blindedSecret := hsecret
    rw [h.messages] at hmem
    obtain ⟨m, hm, rfl⟩ := List.mem_map.mp hmem
    refine ⟨⟨m.blindedSecret, m.amount, m.keysetId, none, none, some setup.operation⟩, ?_, rfl, rfl,
      rfl⟩
    rw [h.signatures]
    exact List.mem_append_right _ (List.mem_map_of_mem (f := fun m : BlindedMessage =>
      SignatureRow.mk m.blindedSecret m.amount m.keysetId none none (some setup.operation)) hm)

theorem Move.sagasHeld (h : Move env w a w') (hst : Stored env w) (hids : OperationIds w)
    (hdel : SagasDeleted w a) (hw : SagasHeld w) : SagasHeld w' := by
  refine ⟨h.swapSagas hids hw, h.pendingSagas hids hw, ?_⟩
  intro saga hsaga hafter
  have hold : saga ∈ w.db.sagas.rows → SagaHeld w'.db saga := by
    intro hmem
    refine h.sagaHeld hst hids hw hdel hmem (hw.held saga hmem ?_) hafter
    intro task htask hid
    by_contra hne
    have hremoved : task.removed = true := by simpa using hne
    rcases h.removedKept hdel htask hremoved with hkept | hgone
    · exact hne (hafter task hkept hid)
    · exact hgone saga hsaga hid.symm
  rcases h.sagas saga hsaga with hmem | ⟨request, setup, rows, rfl, -, -, hres⟩
  · exact hold hmem
  · exact hres.sagaHeld

/-- The invariants of a run in which sagas are deleted right after their rows. -/
structure SagasInv (env : Env) (w : World) : Prop where
  stored : Stored env w
  ids : OperationIds w
  held : SagasHeld w

theorem sagasInv_run {keysets : Keysets} {actions : List Action}
    (h : Along (World.step env backends) SagasDeleted (World.init keysets) actions) :
    SagasInv env (World.reached env backends keysets actions) := by
  refine invariant_along ?_ ⟨stored_init keysets, operationIds_init keysets, ?_⟩ h
  · intro w a hw hdel
    have hmove := step_move env backends w a
    exact ⟨hmove.stored hw.stored, hmove.operationIds hw.stored hw.ids,
      hmove.sagasHeld hw.stored hw.ids hdel hw.held⟩
  · constructor <;> simp [World.init, Db.empty]

private theorem deletesOwn_refl (operation : Operation) (db : Db) : DeletesOwn operation db db :=
  ⟨fun _ hr hn => absurd hr hn, fun _ hr hn => absurd hr hn⟩

/-- Undoing a swap is one transaction, or it changes no row. -/
theorem compensate_cases (env : Env) (backends : Backends) (w : World)
    (task : Compensation) (fails : Bool) :
    (w.step env backends (.compensate task fails)).db = w.db ∨
      task ∈ w.compensations ∧ task.removed = false ∧
        SetupRemoved task.saga w.db (w.step env backends (.compensate task fails)).db := by
  simp only [World.step]
  split
  next h =>
    unfold World.compensate
    dsimp only
    split
    next db' hok => exact .inr ⟨h.1, h.2, removeSwapSetup_ok hok⟩
    next =>
      split <;> exact .inl rfl
  next => exact .inl rfl

end Steps

/-- In every run in which a saga is deleted right after its rows and rollbacks delete own proofs,
a compensation or a recovery deletes only rows that the swap of its saga has stored. -/
theorem compensations_delete_own_rows (env : Env) (backends : Backends) (keysets : Keysets)
    (actions : List Action)
    (h : Along (World.step env backends) SagasDeleted (World.init keysets) actions)
    (task : Compensation) (fails : Bool) :
    DeletesOwn task.saga.operation (World.reached env backends keysets actions).db
      (World.reached env backends keysets (actions ++ [.compensate task fails])).db := by
  have hw : SagasInv env (World.reached env backends keysets actions) := sagasInv_run h
  rw [World.reached, World.reached, run_append, run_cons, run_nil]
  rcases compensate_cases env backends
    (run (World.step env backends) (World.init keysets) actions) task fails with
    heq | ⟨htask, hremoved, hdone⟩
  · rw [heq]
    exact deletesOwn_refl _ _
  · exact (hw.held.compensation hw.ids htask hremoved).deletesOwn hdone

/-! ## A saga that outlives its rows -/

/-- The saga of a swap of the input `a`. -/
def staleSaga : Saga := ⟨0, [⟨false, 20⟩], [⟨false, 353⟩]⟩

/-- The swap fails and its rows are removed; then the deletion of its saga succeeds or fails. -/
def sampleUndone (fails : Bool) : List Action :=
  [.setupSwap 0 ⟨[sampleProof 8 "a"], [sampleMessage 8 20]⟩,
    .signSwap ⟨⟨0, [sampleMessage 8 20], [⟨false, 353⟩]⟩, none⟩ true,
    .compensate ⟨staleSaga, false, false⟩ false,
    .deleteSaga ⟨staleSaga, false, true⟩ fails]

/-- A melt of the same input is handed to a backend, and the mint restarts while the payment is
pending. -/
def sampleRestart : List Action :=
  [.createMeltQuote ⟨.uuid 1, .sat, 8, ⟨false, "lnbc2", some (.sat, 8)⟩,
      .zero, .unpaid, some (.label "l2"), none, .bolt11⟩,
    .startMelt 0 ⟨.uuid 1, [sampleProof 8 "a"], none⟩ false,
    .restart fun _ => some .pending]

/-- The recovery of the stale saga deletes the pending input of the melt. -/
theorem recovery_deletes_melt_input :
    ¬ DeletesOwn staleSaga.operation
        (World.reached sampleEnv (fun _ _ => true) [sampleKeyset]
          (sampleUndone true ++ sampleRestart)).db
        (World.reached sampleEnv (fun _ _ => true) [sampleKeyset]
          (sampleUndone true ++ sampleRestart ++ [.compensate ⟨staleSaga, true, false⟩ false])).db ∧
      (World.reached sampleEnv (fun _ _ => true) [sampleKeyset]
          (sampleUndone true ++ sampleRestart)).db.proofs.rows.map
        (fun r => (r.operation, r.state)) = [(⟨.melt, 2⟩, .pending)] ∧
      (World.reached sampleEnv (fun _ _ => true) [sampleKeyset]
        (sampleUndone true ++ sampleRestart ++
          [.compensate ⟨staleSaga, true, false⟩ false])).db.proofs.rows = [] := by
  decide +kernel

/-- A swap that is in flight at a restart, after an earlier one was undone. -/
def sampleRecovery : List Action :=
  sampleUndone false ++
    [.setupSwap 0 ⟨[sampleProof 8 "a"], [sampleMessage 8 21]⟩,
      .restart fun _ => some .pending]

theorem compensations_delete_own_rows_recovery :
    Along (World.step sampleEnv fun _ _ => true) SagasDeleted (World.init [sampleKeyset])
        sampleRecovery ∧
      (World.reached sampleEnv (fun _ _ => true) [sampleKeyset]
        sampleRecovery).compensations = [⟨⟨1, [⟨false, 21⟩], [⟨false, 353⟩]⟩, true, false⟩] ∧
      DeletesOwn ⟨.swap, 1⟩
        (World.reached sampleEnv (fun _ _ => true) [sampleKeyset] sampleRecovery).db
        (World.reached sampleEnv (fun _ _ => true) [sampleKeyset] (sampleRecovery ++
          [.compensate ⟨⟨1, [⟨false, 21⟩], [⟨false, 353⟩]⟩, true, false⟩ false])).db :=
  ⟨by decide +kernel, by decide +kernel,
    compensations_delete_own_rows sampleEnv (fun _ _ => true) [sampleKeyset] sampleRecovery
      (by decide +kernel) ⟨⟨1, [⟨false, 21⟩], [⟨false, 353⟩]⟩, true, false⟩ false⟩

end Cdk
