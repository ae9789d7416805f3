import Cdk.Lib.Outcome
import Cdk.Lib.Runs
import Cdk.Wallet.ProofInfo

/-!
# Concurrent updates of the proofs of a redb store

`update_proofs` is one write transaction. `update_proofs_state` first opens a
read transaction, then waits for the write lock, and writes rows that it has
read in the older of the two. Write transactions exclude one another, so a call
is a commit or, for the state of proofs, a snapshot and a later commit.
-/

namespace Cdk

open Lib

inductive RedbProofsError where
  | unknownY
deriving DecidableEq, Repr

/-- `WalletRedbDatabase::update_proofs`, a proof that is both added and deleted is deleted. -/
def redbUpdateProofs (added : List ProofInfo) (deletedYs : List PublicKey) (t : ProofTable) :
    ProofTable :=
  (t.insertAll added).removeAll deletedYs

/-- A round of the loop of `update_proofs_state`, which reads in one transaction and writes in the
other. -/
def redbSetState (snapshot : ProofTable) (state : State) (y : PublicKey) :
    Tx ProofTable RedbProofsError Unit := do
  let info ← Tx.lift (Outcome.ofOption .unknownY (snapshot.find? y))
  Tx.write fun t => t.upsert (info.setState state)

/-- The write transaction of `WalletRedbDatabase::update_proofs_state`. -/
def redbUpdateProofsState (snapshot : ProofTable) (ys : List PublicKey) (state : State) :
    Tx ProofTable RedbProofsError Unit :=
  ys.forM (redbSetState snapshot state)

/-- A call that changes proofs. -/
inductive ProofCall where
  | updateProofs (added : List ProofInfo) (deletedYs : List PublicKey)
  | updateProofsState (ys : List PublicKey) (state : State)
deriving DecidableEq, Repr

/-- The table after a call that runs alone. -/
def redbSerial (t : ProofTable) : ProofCall → ProofTable
  | .updateProofs added deletedYs => redbUpdateProofs added deletedYs t
  | .updateProofsState ys state => ((redbUpdateProofsState t ys state).commit t).2

/-- A call of `update_proofs_state` that has its snapshot and waits for the write lock. -/
structure StateCall where
  ys : List PublicKey
  state : State
  snapshot : ProofTable

def StateCall.toCall (call : StateCall) : ProofCall := .updateProofsState call.ys call.state

/-- The last commit, the calls that wait, and the calls that are over. -/
structure RedbProofs where
  table : ProofTable
  waiting : List StateCall
  finished : List ProofCall

namespace RedbProofs

inductive Action where
  | updateProofs (added : List ProofInfo) (deletedYs : List PublicKey)
  | beginRead (ys : List PublicKey) (state : State)
  | writeState (waiter : Nat)

def new (table : ProofTable) : RedbProofs := ⟨table, [], []⟩

def step (s : RedbProofs) : Action → RedbProofs
  | .updateProofs added deletedYs =>
      { s with
        table := redbUpdateProofs added deletedYs s.table
        finished := .updateProofs added deletedYs :: s.finished }
  | .beginRead ys state => { s with waiting := ⟨ys, state, s.table⟩ :: s.waiting }
  | .writeState waiter =>
      match s.waiting[waiter]? with
      | none => s
      | some call =>
          { table := ((redbUpdateProofsState call.snapshot call.ys call.state).commit s.table).2
            waiting := s.waiting.eraseIdx waiter
            finished := call.toCall :: s.finished }

end RedbProofs

/-- The snapshot lacks a proof of the call, or it has the rows of the table for all its proofs, up
to the state that is written anyway. -/
def StateCall.Undisturbed (call : StateCall) (t : ProofTable) : Prop :=
  (∃ y ∈ call.ys, call.snapshot.find? y = none) ∨
    ∀ y ∈ call.ys, (t.find? y).map (·.setState call.state) =
      (call.snapshot.find? y).map (·.setState call.state)

instance (call : StateCall) (t : ProofTable) : Decidable (call.Undisturbed t) :=
  inferInstanceAs (Decidable (_ ∨ _))

/-- No other call has changed the rows of a call that gets the write lock since its snapshot. -/
def RedbProofs.Undisturbed (s : RedbProofs) : RedbProofs.Action → Prop
  | .writeState waiter => ∀ call ∈ s.waiting[waiter]?, call.Undisturbed s.table
  | _ => True

instance (s : RedbProofs) : (a : RedbProofs.Action) → Decidable (s.Undisturbed a)
  | .updateProofs _ _ => inferInstanceAs (Decidable True)
  | .beginRead _ _ => inferInstanceAs (Decidable True)
  | .writeState waiter =>
      inferInstanceAs (Decidable (∀ call ∈ s.waiting[waiter]?, call.Undisturbed s.table))

/-! ## One call -/

section Calls

variable {snapshot t t' : ProofTable} {ys : List PublicKey} {state : State}

theorem redbSetState_ok {y : PublicKey} : redbSetState snapshot state y t = .ok ((), t') ↔
    ∃ info, snapshot.find? y = some info ∧ t' = t.upsert (info.setState state) := by
  simp only [redbSetState, Tx.bind_ok, Tx.lift_ok, Tx.write_ok, Outcome.ofOption_eq_ok]
  constructor
  · rintro ⟨info, _, ⟨hrow, rfl⟩, rfl⟩
    exact ⟨info, hrow, rfl⟩
  · rintro ⟨info, hrow, rfl⟩
    exact ⟨info, t, ⟨hrow, rfl⟩, rfl⟩

/-- The rows that a call reads, up to their state, determine what it writes. -/
theorem redbUpdateProofsState_congr {snapshot' : ProofTable}
    (h : ∀ y ∈ ys, (snapshot.find? y).map (·.setState state) =
      (snapshot'.find? y).map (·.setState state)) :
    redbUpdateProofsState snapshot ys state = redbUpdateProofsState snapshot' ys state := by
  apply Tx.forM_congr
  intro y hy
  have hrow := h y hy
  unfold redbSetState
  cases hs : snapshot.find? y with
  | none =>
      rw [hs, Option.map_none] at hrow
      rw [Option.map_eq_none_iff.mp hrow.symm]
  | some info =>
      rw [hs, Option.map_some] at hrow
      obtain ⟨info', hs', hstate⟩ := Option.map_eq_some_iff.mp hrow.symm
      rw [hs']
      change Tx.write (fun t : ProofTable => t.upsert (info.setState state)) =
        Tx.write (fun t : ProofTable => t.upsert (info'.setState state))
      rw [hstate]

/-- A call whose snapshot lacks one of its proofs changes nothing. -/
theorem commit_of_missing {y : PublicKey} (hy : y ∈ ys) (h : snapshot.find? y = none) :
    ((redbUpdateProofsState snapshot ys state).commit t).2 = t := by
  rcases Tx.commit_cases (redbUpdateProofsState snapshot ys state) t with
    ⟨_, t', hok, -⟩ | ⟨-, hsame, -⟩
  · obtain ⟨t₁, t₂, hround⟩ := Tx.exists_round_of_forM hok hy
    obtain ⟨info, hrow, -⟩ := redbSetState_ok.mp hround
    rw [h] at hrow
    cases hrow
  · exact hsame

/-- A call that runs alone does not create a proof. -/
theorem find?_redbUpdateProofsState {y : PublicKey} (h : t.find? y = none) :
    ((redbUpdateProofsState t ys state).commit t).2.find? y = none := by
  apply Tx.commit_preserves (P := fun t' : ProofTable => t'.find? y = none) h
  intro _ t' hrun
  refine Tx.forM_preserves (P := fun t' : ProofTable => t'.find? y = none) ?_ h hrun
  intro x t₁ t₂ h₁ hround
  obtain ⟨info, hrow, rfl⟩ := redbSetState_ok.mp hround
  rw [Table.find?_upsert, if_neg]
  · exact h₁
  · rintro rfl
    have hx : info.y = x := (Table.find?_eq_some.mp hrow).2
    rw [ProofInfo.setState_y, hx, hrow] at h
    cases h

theorem find?_insertAll {added : List ProofInfo} {y : PublicKey} (h : t.find? y = none)
    (hadded : ∀ info ∈ added, info.y ≠ y) : (t.insertAll added).find? y = none := by
  unfold ProofTable.insertAll
  induction added generalizing t with
  | nil => exact h
  | cons info rest ih =>
      obtain ⟨hne, hrest⟩ := List.forall_mem_cons.mp hadded
      apply ih _ hrest
      rw [Table.find?_upsert, if_neg hne, h]

theorem find?_removeAll {y : PublicKey} :
    (t.removeAll ys).find? y = if ys.contains y then none else t.find? y :=
  Table.find?_delete_key

end Calls

/-! ## Runs -/

namespace RedbProofs

/-- Some order of the finished calls leads to the table, and passes the snapshot of every call that
waits. -/
def Linearized (t₀ : ProofTable) (s : RedbProofs) : Prop :=
  ∃ order : List ProofCall, order.Perm s.finished ∧ run redbSerial t₀ order = s.table ∧
    ∀ call ∈ s.waiting, ∃ before after, order = before ++ after ∧
      run redbSerial t₀ before = call.snapshot

variable {t₀ : ProofTable} {s : RedbProofs}

theorem linearized_new (t₀ : ProofTable) : (new t₀).Linearized t₀ :=
  ⟨[], .nil, rfl, fun _ hcall => absurd hcall List.not_mem_nil⟩

/-- A call that takes effect when it ends comes last. -/
theorem linearized_last (h : s.Linearized t₀) (call : ProofCall) {waiting : List StateCall}
    (hwaiting : ∀ call ∈ waiting, call ∈ s.waiting) :
    Linearized t₀ ⟨redbSerial s.table call, waiting, call :: s.finished⟩ := by
  obtain ⟨order, hperm, htable, hsnapshots⟩ := h
  refine ⟨order ++ [call], ?_, ?_, ?_⟩
  · exact (List.perm_append_singleton call order).trans (hperm.cons call)
  · rw [run_append, htable]
    rfl
  · intro waiter hwaiter
    obtain ⟨before, after, rfl, hbefore⟩ := hsnapshots waiter (hwaiting waiter hwaiter)
    exact ⟨before, after ++ [call], by rw [List.append_assoc], hbefore⟩

/-- A call that finds a proof missing takes its place at the time of its snapshot. -/
theorem linearized_missing (h : s.Linearized t₀) {call : StateCall} (hcall : call ∈ s.waiting)
    {y : PublicKey} (hy : y ∈ call.ys) (hmissing : call.snapshot.find? y = none)
    {waiting : List StateCall} (hwaiting : ∀ call ∈ waiting, call ∈ s.waiting) :
    Linearized t₀ ⟨s.table, waiting, call.toCall :: s.finished⟩ := by
  obtain ⟨order, hperm, htable, hsnapshots⟩ := h
  obtain ⟨before, after, rfl, hbefore⟩ := hsnapshots call hcall
  have hnoop : redbSerial (run redbSerial t₀ before) call.toCall = run redbSerial t₀ before := by
    rw [hbefore]
    exact commit_of_missing hy hmissing
  refine ⟨before ++ call.toCall :: after, ?_, ?_, ?_⟩
  · exact List.perm_middle.trans (hperm.cons call.toCall)
  · rw [run_insert hnoop, htable]
  · intro waiter hwaiter
    obtain ⟨before', after', hsplit, hbefore'⟩ := hsnapshots waiter (hwaiting waiter hwaiter)
    obtain ⟨first, rest, heq, hsame⟩ := exists_prefix_insert hnoop hsplit
    exact ⟨first, rest, heq, hsame.trans hbefore'⟩

/-- What a call writes that got the write lock undisturbed. -/
theorem commit_undisturbed {call : StateCall} {t : ProofTable} (h : call.Undisturbed t) :
    (∃ y ∈ call.ys, call.snapshot.find? y = none ∧
      ((redbUpdateProofsState call.snapshot call.ys call.state).commit t).2 = t) ∨
    ((redbUpdateProofsState call.snapshot call.ys call.state).commit t).2 =
      redbSerial t call.toCall := by
  rcases h with ⟨y, hy, hmissing⟩ | hsame
  · exact .inl ⟨y, hy, hmissing, commit_of_missing hy hmissing⟩
  · right
    rw [← redbUpdateProofsState_congr hsame]
    rfl

theorem step_linearized (s : RedbProofs) (a : Action) (h : s.Linearized t₀)
    (hok : s.Undisturbed a) : (s.step a).Linearized t₀ := by
  cases a with
  | updateProofs added deletedYs =>
      exact linearized_last h (.updateProofs added deletedYs) fun _ hcall => hcall
  | beginRead ys state =>
      obtain ⟨order, hperm, htable, hsnapshots⟩ := h
      refine ⟨order, hperm, htable, ?_⟩
      intro call hcall
      rcases List.mem_cons.mp hcall with rfl | hcall
      · exact ⟨order, [], (List.append_nil order).symm, htable⟩
      · exact hsnapshots call hcall
  | writeState waiter =>
      simp only [step]
      split
      next => exact h
      next call hget =>
        have hrest : ∀ other ∈ s.waiting.eraseIdx waiter, other ∈ s.waiting :=
          fun _ hother => List.mem_of_mem_eraseIdx hother
        rcases commit_undisturbed (hok call hget) with ⟨y, hy, hmissing, hsame⟩ | hserial
        · rw [hsame]
          exact linearized_missing h (List.mem_of_getElem? hget) hy hmissing hrest
        · rw [hserial]
          exact linearized_last h call.toCall hrest

/-- The action is an `update_proofs` that adds the proof. -/
def Action.Adds (y : PublicKey) : Action → Prop
  | .updateProofs added _ => ∃ info ∈ added, info.y = y
  | _ => False

/-- A proof that is absent stays absent until it is added. -/
theorem step_absent {y : PublicKey} (s : RedbProofs) (a : Action) (h : s.table.find? y = none)
    (hok : s.Undisturbed a ∧ ¬a.Adds y) : (s.step a).table.find? y = none := by
  cases a with
  | updateProofs added deletedYs =>
      have hadded : ∀ info ∈ added, info.y ≠ y := fun info hinfo heq => hok.2 ⟨info, hinfo, heq⟩
      simp only [step, redbUpdateProofs]
      rw [find?_removeAll, find?_insertAll h hadded, ite_self]
  | beginRead ys state => exact h
  | writeState waiter =>
      simp only [step]
      split
      next => exact h
      next call hget =>
        rcases commit_undisturbed (hok.1 call hget) with ⟨_, _, _, hsame⟩ | hserial
        · rw [hsame]
          exact h
        · rw [hserial]
          exact find?_redbUpdateProofsState h

/-- No update is lost: the table is the result of the finished calls in some order, and a proof that
a finished `update_proofs` has deleted is absent until it is added again. -/
def NoLostUpdate (t₀ : ProofTable) (actions : List Action) : Prop :=
  (∃ order : List ProofCall, order.Perm (run step (new t₀) actions).finished ∧
    run redbSerial t₀ order = (run step (new t₀) actions).table) ∧
  ∀ first added deletedYs rest, actions = first ++ .updateProofs added deletedYs :: rest →
    ∀ y ∈ deletedYs, (∀ a ∈ rest, ¬a.Adds y) →
      (run step (new t₀) actions).table.find? y = none

/-- No update is lost in a run in which no other call changes the rows of a state update between its
snapshot and its write transaction. -/
theorem noLostUpdate_of_undisturbed (t₀ : ProofTable) (actions : List Action)
    (h : Along step Undisturbed (new t₀) actions) : NoLostUpdate t₀ actions := by
  constructor
  · obtain ⟨order, hperm, htable, -⟩ :=
      @invariant_along RedbProofs Action step Undisturbed (Linearized t₀) step_linearized _ _
        (linearized_new t₀) h
    exact ⟨order, hperm, htable⟩
  · rintro first added deletedYs rest rfl y hy hrest
    rw [along_append] at h
    obtain ⟨-, -, hafter⟩ := h
    rw [run_append, run_cons]
    apply @invariant_along RedbProofs Action step (fun s a => s.Undisturbed a ∧ ¬a.Adds y)
      (fun s => s.table.find? y = none) step_absent
    · change (redbUpdateProofs _ _ _).find? y = none
      rw [redbUpdateProofs, find?_removeAll, if_pos (by simpa using hy)]
    · exact along_and hafter hrest

/-- Another proof is deleted between the snapshot and the write transaction of a state update. -/
theorem noLostUpdate_of_undisturbed_at_two :
    NoLostUpdate .empty [.updateProofs [ProofInfo.sample 1, ProofInfo.sample 2] [],
      .beginRead [(ProofInfo.sample 1).y] .spent, .updateProofs [] [(ProofInfo.sample 2).y],
      .writeState 0] :=
  noLostUpdate_of_undisturbed .empty _ (by decide +kernel)

/-- A proof that is deleted between the snapshot and the write transaction of a state update is
written back. -/
theorem stale_write_back :
    ¬∀ (t₀ : ProofTable) (actions : List Action), NoLostUpdate t₀ actions := by
  intro h
  let first : List Action :=
    [.updateProofs [ProofInfo.sample 1] [], .beginRead [(ProofInfo.sample 1).y] .spent]
  let rest : List Action := [.writeState 0]
  have habsent := (h .empty (first ++ .updateProofs [] [(ProofInfo.sample 1).y] :: rest)).2
    first [] [(ProofInfo.sample 1).y] rest rfl (ProofInfo.sample 1).y (by simp)
      (by simp [rest, Action.Adds])
  have hback : (run step (new .empty)
      (first ++ .updateProofs [] [(ProofInfo.sample 1).y] :: rest)).table.find?
        (ProofInfo.sample 1).y = some ((ProofInfo.sample 1).setState .spent) := by
    decide +kernel
  rw [hback] at habsent
  cases habsent

end RedbProofs

end Cdk
