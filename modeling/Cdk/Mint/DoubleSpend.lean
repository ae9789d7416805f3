import Cdk.Mint.Moves

/-!
# Double spends

A stored proof is pending or spent, a spent one stays as it is, and a swap that
completes finds all its inputs unspent. So no proof is an input of two completed
swaps, whatever else runs and however often the mint restarts.
-/

namespace Cdk

open Lib

/-! ## Stored proofs -/

/-- What holds of the proofs and the writers of every reachable mint. -/
structure Stored (env : Env) (w : World) : Prop where
  settled : w.db.Settled
  keyed : ∀ r ∈ w.db.proofs.rows, env.hashToCurve (utf8 r.secret) = some r.y
  melts : ∀ task ∈ w.melts, task.writer.Good
  rollbacks : ∀ task ∈ w.rollbacks, task.writer.Good

/-- What a step of the mint can do to the stored proofs. -/
inductive ProofStep (env : Env) (w : World) (a : Action) (w' : World) (db db' : Db) : Prop where
  | same (h : db'.proofs = db.proofs)
  | reserve (inputs : List Proof) (quoteId : Option QuoteId) (operation : Operation)
      (rows : List ProofRow) (hid : operation.id = w.nextId) (hnext : w'.nextId = w.nextId + 1)
      (hreserved : Db.Reserved env inputs quoteId operation rows)
      (hrows : db'.proofs.rows = db.proofs.rows ++ rows)
  | spend (ys : List PublicKey)
      (hallowed : ∀ r ∈ db.proofs.rows, r.y ∈ ys → r.state.transitionAllowed .spent = true)
      (hproofs : db'.proofs = db.proofs.update (Db.setState ys .spent) (Db.setState_y ys .spent))
  | compensate (task : Compensation) (ha : a = .compensate task false)
      (htask : task ∈ w.compensations) (hremoved : task.removed = false)
      (hafter : { task with removed := true } ∈ w'.compensations) (hdb : db = w.db)
      (hproofs : db'.proofs = db.proofs.delete (Db.removable task.saga.inputYs))
  | rollback (task : RollbackTask) (ha : a = .rollback task) (htask : task ∈ w.rollbacks)
      (hdb : db = w.db)
      (hproofs : db'.proofs = db.proofs.delete (Db.removable (task.writer.withOriginal none)))

section ProofSteps

variable {env : Env} {w w' : World} {a : Action} {db db' : Db}

theorem deleteSagaUnless_frame (keep : Bool) (operationId : Uuid) (db : Db) :
    ∃ t, deleteSagaUnless keep operationId db = { db with sagas := t } := by
  unfold deleteSagaUnless
  split
  · exact ⟨db.sagas, rfl⟩
  · exact ⟨_, rfl⟩

/-- A step changes the proofs once, or twice when it settles a melt internally. -/
theorem Move.proofSteps (h : Move env w a w') (hw : Stored env w) :
    ∃ mid, ProofStep env w a w' w.db mid ∧ ProofStep env w a w' mid w'.db := by
  suffices hone : ProofStep env w a w' w.db w'.db ∨ ∃ mid, ProofStep env w a w' w.db mid ∧
      ProofStep env w a w' mid w'.db by
    rcases hone with hone | hboth
    · exact ⟨w'.db, hone, .same rfl⟩
    · exact hboth
  cases h with
  | credit db' h => exact .inl (.same (credits_same Db.proofs (fun _ _ _ => rfl) h))
  | issue quote total db' h => exact .inl (.same (by rw [World.tick, h.frame]))
  | setupSwap request setup rows db' hid h =>
      exact .inl (.reserve _ _ _ rows hid rfl h.reserved h.proofs)
  | finalizeSwap task signatures stored keepSaga htask hsigned h =>
      obtain ⟨t, ht⟩ := deleteSagaUnless_frame keepSaga task.setup.operationId stored
      exact .inl (.spend task.setup.ys h.allowed (by rw [ht]; exact h.proofs))
  | compensate task db' htask hremoved h =>
      exact .inl (.compensate task rfl htask hremoved (by simp) rfl h.proofs)
  | deleteSaga task fails htask hremoved =>
      obtain ⟨t, ht⟩ := deleteSagaUnless_frame fails task.saga.operationId w.db
      exact .inl (.same (by rw [World.deleteSaga, ht]))
  | startMelt request quote rows writer db' h hgood =>
      exact .inl (.reserve _ _ ⟨.melt, w.nextId⟩ rows rfl rfl h.reserved h.proofs)
  | settleInternally request quote rows mintQuote reserved credited change ys writer db' hreserved
      hcredit hsettled hgood =>
      refine .inr ⟨credited, ?_, .spend ys hsettled.allowed hsettled.proofs⟩
      refine .reserve _ _ ⟨.melt, w.nextId⟩ rows rfl rfl hreserved.reserved ?_
      rw [hcredit.frame]
      exact hreserved.proofs
  | settleMelt task quote spent change ys writer db' htask hphase h hgood =>
      exact .inl (.spend ys h.allowed h.proofs)
  | storeChange task change signatures db' htask hphase hsign h =>
      exact .inl (.same (by rw [h.frame]))
  | rollback task htask =>
      rcases rollback_cases (hw.rollbacks task htask) hw.settled with h | ⟨-, h⟩
      · exact .inl (.same (by rw [World.rollback, h]))
      · exact .inl (.rollback task rfl htask rfl (by rw [World.rollback, h]))
  | restart check db' h => exact .inl (.same (by rw [h.frame]))
  | _ => exact .inl (.same rfl)

/-- What relates the proofs before and after each change relates them over a step. -/
theorem Move.proofs_related {R : Db → Db → Prop} (h : Move env w a w') (hw : Stored env w)
    (htrans : ∀ x y z, R x y → R y z → R x z)
    (hstep : ∀ x y, ProofStep env w a w' x y → R x y) : R w.db w'.db := by
  obtain ⟨mid, h₁, h₂⟩ := h.proofSteps hw
  exact htrans _ _ _ (hstep _ _ h₁) (hstep _ _ h₂)

end ProofSteps

/-! ## Spent proofs stay -/

/-- What a transaction may do to the stored proofs. -/
structure ProofsKept (env : Env) (db db' : Db) : Prop where
  spent : ∀ r ∈ db.proofs.rows, r.state = .spent → r ∈ db'.proofs.rows
  settled : db.Settled → db'.Settled
  keyed : (∀ r ∈ db.proofs.rows, env.hashToCurve (utf8 r.secret) = some r.y) →
    ∀ r ∈ db'.proofs.rows, env.hashToCurve (utf8 r.secret) = some r.y

namespace ProofsKept

variable {env : Env} {db db' db'' : Db}

theorem of_eq (h : db'.proofs = db.proofs) : ProofsKept env db db' where
  spent _ hr _ := h ▸ hr
  settled hdb r hr := hdb r (h ▸ hr)
  keyed hk r hr := hk r (h ▸ hr)

theorem trans (h : ProofsKept env db db') (h' : ProofsKept env db' db'') :
    ProofsKept env db db'' where
  spent r hr hs := h'.spent r (h.spent r hr hs) hs
  settled hdb := h'.settled (h.settled hdb)
  keyed hk := h'.keyed (h.keyed hk)

theorem of_reserved {inputs : List Proof} {quoteId : Option QuoteId} {operation : Operation}
    {rows : List ProofRow} (hres : Db.Reserved env inputs quoteId operation rows)
    (hrows : db'.proofs.rows = db.proofs.rows ++ rows) : ProofsKept env db db' where
  spent r hr _ := by
    rw [hrows]
    exact List.mem_append_left _ hr
  settled hdb r hr := by
    rw [hrows, List.mem_append] at hr
    rcases hr with hr | hr
    · exact hdb r hr
    · exact .inl (hres.pending r hr).1
  keyed hk r hr := by
    rw [hrows, List.mem_append] at hr
    rcases hr with hr | hr
    · exact hk r hr
    · exact hres.keyed r hr

/-- Marking unspent proofs spent. -/
theorem of_spent {ys : List PublicKey}
    (hallowed : ∀ r ∈ db.proofs.rows, r.y ∈ ys → r.state.transitionAllowed .spent = true)
    (hproofs : db'.proofs = db.proofs.update (Db.setState ys .spent) (Db.setState_y ys .spent)) :
    ProofsKept env db db' where
  spent r hr hs := by
    have hy : r.y ∉ ys := by
      intro hy
      have := hallowed r hr hy
      rw [hs] at this
      cases this
    rw [hproofs]
    exact List.mem_map.mpr ⟨r, hr, if_neg hy⟩
  settled hdb r' hr' := by
    rw [hproofs] at hr'
    obtain ⟨r, hr, rfl⟩ := List.mem_map.mp hr'
    rw [Db.setState_state]
    split
    · exact .inr rfl
    · exact hdb r hr
  keyed hk r' hr' := by
    rw [hproofs] at hr'
    obtain ⟨r, hr, rfl⟩ := List.mem_map.mp hr'
    rw [Db.setState_secret, Db.setState_y]
    exact hk r hr

/-- Deleting proofs spares the spent ones. -/
theorem of_removed {ys : List PublicKey}
    (hproofs : db'.proofs = db.proofs.delete (Db.removable ys)) : ProofsKept env db db' where
  spent r hr hs := by
    rw [hproofs, Table.mem_delete]
    exact ⟨hr, by simp [Db.removable, hs]⟩
  settled hdb r hr := by
    rw [hproofs, Table.mem_delete] at hr
    exact hdb r hr.1
  keyed hk r hr := by
    rw [hproofs, Table.mem_delete] at hr
    exact hk r hr.1

end ProofsKept

section Steps

variable {env : Env} {backends : Backends} {w w' : World} {a : Action}

theorem Move.proofsKept (h : Move env w a w') (hw : Stored env w) :
    ProofsKept env w.db w'.db := by
  refine h.proofs_related hw (fun _ _ _ => ProofsKept.trans) ?_
  intro db db' hstep
  cases hstep with
  | same h => exact .of_eq h
  | reserve _ _ _ rows _ _ hreserved hrows => exact .of_reserved hreserved hrows
  | spend ys hallowed hproofs => exact .of_spent hallowed hproofs
  | compensate _ _ _ _ _ _ hproofs => exact .of_removed hproofs
  | rollback _ _ _ _ hproofs => exact .of_removed hproofs

private theorem good_changeTask {operationId : Uuid} {writer : ProofWriter}
    {change : Option PendingChange} (hgood : writer.Good) {task : MeltTask}
    (h : task ∈ World.changeTask operationId writer change) : task.writer.Good := by
  obtain ⟨c, -, rfl⟩ := List.mem_map.mp h
  exact hgood

theorem Move.stored (h : Move env w a w') (hw : Stored env w) : Stored env w' := by
  have hkept := h.proofsKept hw
  refine ⟨hkept.settled hw.settled, hkept.keyed hw.keyed, ?_, ?_⟩
  · intro task htask
    cases h with
    | startMelt request quote rows writer db' h hgood =>
        rcases List.mem_append.mp htask with htask | htask
        · exact hw.melts task htask
        · rw [List.mem_singleton.mp htask]
          exact hgood hw.settled
    | settleInternally request quote rows mintQuote reserved credited change ys writer db'
        hreserved hcredit hsettled hgood =>
        rcases List.mem_append.mp htask with htask | htask
        · exact hw.melts task htask
        · exact good_changeTask (hgood hw.settled) htask
    | settleMelt old quote spent change ys writer db' hold hphase h hgood =>
        rcases List.mem_append.mp htask with htask | htask
        · exact hw.melts task (List.mem_of_mem_erase htask)
        · exact good_changeTask (hgood hw.settled (hw.melts old hold)) htask
    | endMelt old _ => exact hw.melts task (List.mem_of_mem_erase htask)
    | releaseMelt old _ _ _ => exact hw.melts task (List.mem_of_mem_erase htask)
    | storeChange old _ _ _ _ _ _ _ => exact hw.melts task (List.mem_of_mem_erase htask)
    | restart _ _ _ => cases htask
    | crash _ => cases htask
    | _ => exact hw.melts task htask
  · intro task htask
    cases h with
    | failMelt writer hgood =>
        rcases List.mem_append.mp htask with htask | htask
        · exact hw.rollbacks task htask
        · rw [List.mem_singleton.mp htask]
          exact hgood hw.settled
    | releaseMelt old writer hold hgood =>
        rcases List.mem_append.mp htask with htask | htask
        · exact hw.rollbacks task htask
        · rw [List.mem_singleton.mp htask]
          exact hgood hw.settled (hw.melts old hold)
    | rollback old _ => exact hw.rollbacks task (List.mem_of_mem_erase htask)
    | restart _ _ _ => cases htask
    | crash _ => cases htask
    | _ => exact hw.rollbacks task htask

theorem stored_init (keysets : Keysets) : Stored env (World.init keysets) := by
  constructor <;> simp [World.init, Db.empty, Db.Settled]

theorem stored_run (keysets : Keysets) (actions : List Action) :
    Stored env (World.reached env backends keysets actions) :=
  invariant_run (fun w a hw => (step_move env backends w a).stored hw) (stored_init keysets) actions

/-- A spent proof stays where it is. -/
theorem spent_run (hw : Stored env w) (later : List Action) {r : ProofRow}
    (hr : r ∈ w.db.proofs.rows) (hs : r.state = .spent) :
    r ∈ (run (World.step env backends) w later).db.proofs.rows := by
  induction later generalizing w with
  | nil => exact hr
  | cons a rest ih =>
      have hmove := step_move env backends w a
      exact ih (hmove.stored hw) ((hmove.proofsKept hw).spent r hr hs)

/-- A step moves a stored proof as the transition rules allow. -/
theorem Move.transition (h : Move env w a w') (hw : Stored env w) {r r' : ProofRow}
    (hr : r ∈ w.db.proofs.rows) (hr' : r' ∈ w'.db.proofs.rows) (hkey : r.y = r'.y) :
    r.state = r'.state ∨ checkStateTransition r.state r'.state = .ok () := by
  have hkept := h.proofsKept hw
  rcases hw.settled r hr with hs | hs
  · rcases hkept.settled hw.settled r' hr' with hs' | hs'
    · exact .inl (hs.trans hs'.symm)
    · rw [hs, hs']
      exact .inr rfl
  · exact .inl (by rw [Table.eq_of_key (hkept.spent r hr hs) hr' hkey])

/-! ## Completed swaps -/

/-- No proof is an input of two completed swaps, and the inputs of completed swaps are spent. -/
structure SwapsSpent (w : World) : Prop where
  distinct : (w.finalized.flatMap SwapSetup.ys).Nodup
  spent : ∀ y ∈ w.finalized.flatMap SwapSetup.ys, ∃ r ∈ w.db.proofs.rows,
    r.y = y ∧ r.state = .spent

/-- A completing swap finds none of its inputs spent. -/
theorem SwapStored.distinct {setup : SwapSetup} {signatures : List BlindSignature} {db db' : Db}
    (h : SwapStored setup signatures db db') : setup.ys.Nodup ∧
      ∀ r ∈ db.proofs.rows, r.state = .spent → r.y ∉ setup.ys := by
  refine ⟨Table.nodup_of_length h.found, ?_⟩
  intro r hr hs hy
  have := h.allowed r hr hy
  rw [hs] at this
  cases this

theorem SwapStored.spends {setup : SwapSetup} {signatures : List BlindSignature} {db db' : Db}
    (h : SwapStored setup signatures db db') {y : PublicKey} (hy : y ∈ setup.ys) :
    ∃ r ∈ db'.proofs.rows, r.y = y ∧ r.state = .spent := by
  obtain ⟨r, hr, hkey⟩ := Table.exists_row_of_length h.found hy
  refine ⟨Db.setState setup.ys .spent r, ?_, ?_, ?_⟩
  · rw [h.proofs]
    exact List.mem_map_of_mem hr
  · rw [Db.setState_y, hkey]
  · rw [Db.setState_state, hkey, if_pos hy]

theorem Move.swapsSpent (h : Move env w a w') (hw : Stored env w) (hs : SwapsSpent w) :
    SwapsSpent w' := by
  have hkept := h.proofsKept hw
  have hold : ∀ y ∈ w.finalized.flatMap SwapSetup.ys, ∃ r ∈ w'.db.proofs.rows,
      r.y = y ∧ r.state = .spent := by
    intro y hy
    obtain ⟨r, hr, hkey, hstate⟩ := hs.spent y hy
    exact ⟨r, hkept.spent r hr hstate, hkey, hstate⟩
  cases h with
  | finalizeSwap task signatures stored keepSaga htask hsigned h =>
      obtain ⟨t, ht⟩ := deleteSagaUnless_frame keepSaga task.setup.operationId stored
      constructor
      · simp only [List.flatMap_append, List.flatMap_singleton]
        refine List.nodup_append.mpr ⟨hs.distinct, h.distinct.1, ?_⟩
        rintro y hy _ hy' rfl
        obtain ⟨r, hr, rfl, hstate⟩ := hs.spent y hy
        exact h.distinct.2 r hr hstate hy'
      · intro y hy
        simp only [List.flatMap_append, List.flatMap_singleton, List.mem_append] at hy
        rcases hy with hy | hy
        · exact hold y hy
        · rw [ht]
          exact h.spends hy
  | _ => exact ⟨hs.distinct, hold⟩

theorem swapsSpent_run (keysets : Keysets) (actions : List Action) :
    SwapsSpent (World.reached env backends keysets actions) := by
  have hboth : ∀ w a, Stored env w ∧ SwapsSpent w →
      Stored env (World.step env backends w a) ∧ SwapsSpent (World.step env backends w a) :=
    fun w a hw => ⟨(step_move env backends w a).stored hw.1,
      (step_move env backends w a).swapsSpent hw.1 hw.2⟩
  exact (invariant_run hboth ⟨stored_init keysets, by simp [World.init], by simp [World.init]⟩
    actions).2

end Steps

/-- In every run, no proof is an input of two completed swaps, a spent proof stays spent, and a
step moves a proof only between states that the transition rules allow. -/
theorem swaps_never_double_spend (env : Env) (backends : Backends) (keysets : Keysets)
    (actions : List Action) :
    ((World.reached env backends keysets actions).finalized.flatMap SwapSetup.ys).Nodup ∧
      (∀ later, ∀ r ∈ (World.reached env backends keysets actions).db.proofs.rows,
        r.state = .spent →
          r ∈ (World.reached env backends keysets (actions ++ later)).db.proofs.rows) ∧
      ∀ a, ∀ r ∈ (World.reached env backends keysets actions).db.proofs.rows,
        ∀ r' ∈ (World.reached env backends keysets (actions ++ [a])).db.proofs.rows, r.y = r'.y →
          r.state = r'.state ∨ checkStateTransition r.state r'.state = .ok () := by
  have hstored : Stored env (World.reached env backends keysets actions) :=
    stored_run keysets actions
  refine ⟨(swapsSpent_run keysets actions).distinct, ?_, ?_⟩
  · intro later r hr hs
    rw [World.reached, run_append]
    exact spent_run hstored later hr hs
  · intro a r hr r' hr' hkey
    rw [World.reached, run_append] at hr'
    exact (step_move env backends _ a).transition hstored hr hr' hkey

end Cdk
