import Cdk.Lib.Outcome

/-!
# Redoing transactions on separate components

A state has components, and each transaction of a procedure rewrites one of
them. A procedure that was interrupted is started again from its first
transaction, so some transactions run twice. Each component then holds what its
own transaction makes of it, whatever happens to the others.
-/

namespace Lib

/-- The components of a state, which are read and written one by one. -/
structure Components (σ : Type) {ι : Type} (C : ι → Type) where
  get : (i : ι) → σ → C i
  set : (i : ι) → C i → σ → σ
  get_set_self : ∀ i c s, get i (set i c s) = c
  get_set_of_ne : ∀ i j c s, i ≠ j → get j (set i c s) = get j s

namespace Components

variable {σ ι ε : Type} {C : ι → Type} (L : Components σ C)
  (f : (i : ι) → C i → Outcome ε (C i))

/-- Commit the transaction of a component. -/
def commitOne (i : ι) (s : σ) : Outcome ε σ := do
  let c ← f i (L.get i s)
  .ok (L.set i c s)

/-- Commit one transaction after the other. -/
def commitAll : List ι → σ → Outcome ε σ
  | [], s => .ok s
  | i :: rest, s => do
      let s ← L.commitOne f i s
      commitAll rest s

/-- The state when the procedure stops after a number of commits, or where a transaction fails. -/
def commitSome : List ι → ℕ → σ → σ
  | i :: rest, n + 1, s =>
      match L.commitOne f i s with
      | .ok s => commitSome rest n s
      | _ => s
  | _, _, s => s

variable {L f} {s t e : σ} {is done rest : List ι} {i : ι}

theorem commitOne_eq_ok :
    L.commitOne f i s = .ok t ↔ ∃ c, f i (L.get i s) = .ok c ∧ t = L.set i c s := by
  rw [commitOne, Outcome.bind_eq_ok]
  simp only [Outcome.ok.injEq, @eq_comm _ _ t]

theorem commitAll_append :
    L.commitAll f (done ++ rest) s = .ok t ↔
      ∃ e, L.commitAll f done s = .ok e ∧ L.commitAll f rest e = .ok t := by
  induction done generalizing s with
  | nil =>
      constructor
      · intro h
        exact ⟨s, rfl, h⟩
      · rintro ⟨_, ⟨⟩, h⟩
        exact h
  | cons i done ih =>
      simp only [List.cons_append, commitAll, Outcome.bind_eq_ok, ih]
      constructor
      · rintro ⟨s', hs', e, he, ht⟩
        exact ⟨e, ⟨s', hs', he⟩, ht⟩
      · rintro ⟨e, ⟨s', hs', he⟩, ht⟩
        exact ⟨s', hs', e, he, ht⟩

/-- Where all transactions succeed, the procedure stops at one of its intermediate states. -/
theorem commitAll_take (n : ℕ) (h : L.commitAll f is s = .ok t) :
    L.commitAll f (is.take n) s = .ok (L.commitSome f is n s) := by
  induction is generalizing n s with
  | nil => cases n <;> rfl
  | cons i rest ih =>
      cases n with
      | zero => rfl
      | succ n =>
          simp only [commitAll, Outcome.bind_eq_ok] at h
          obtain ⟨s', hs', h⟩ := h
          simp only [List.take_succ_cons, commitAll, commitSome, hs', Outcome.bind_ok]
          exact ih n h

/-- A component holds what its transaction has made of it. -/
theorem get_of_commitAll (hnodup : is.Nodup) (h : L.commitAll f is s = .ok t) :
    (∀ i ∈ is, f i (L.get i s) = .ok (L.get i t)) ∧ ∀ i ∉ is, L.get i t = L.get i s := by
  induction is generalizing s with
  | nil =>
      cases h
      exact ⟨by simp, fun _ _ => rfl⟩
  | cons i rest ih =>
      obtain ⟨hi, hrest⟩ := List.nodup_cons.mp hnodup
      simp only [commitAll, Outcome.bind_eq_ok] at h
      obtain ⟨s', hs', h⟩ := h
      obtain ⟨c, hc, rfl⟩ := commitOne_eq_ok.mp hs'
      obtain ⟨hin, hout⟩ := ih hrest h
      have hkept : ∀ j, i ≠ j → L.get j (L.set i c s) = L.get j s := fun j hj =>
        L.get_set_of_ne i j c s hj
      refine ⟨?_, ?_⟩
      · intro j hj
        rcases List.mem_cons.mp hj with rfl | hj
        · rw [hc, hout _ hi, L.get_set_self]
        · have hne : i ≠ j := fun hij => hi (hij ▸ hj)
          rw [← hin j hj, hkept j hne]
      · intro j hj
        obtain ⟨hne, hj⟩ := not_or.mp (mt List.mem_cons.mpr hj)
        rw [hout j hj, hkept j (Ne.symm hne)]

/-- Transactions that each succeed on their component succeed one after the other. -/
theorem exists_commitAll (hnodup : is.Nodup) (h : ∀ i ∈ is, ∃ c, f i (L.get i s) = .ok c) :
    ∃ t, L.commitAll f is s = .ok t := by
  induction is generalizing s with
  | nil => exact ⟨s, rfl⟩
  | cons i rest ih =>
      obtain ⟨hi, hrest⟩ := List.nodup_cons.mp hnodup
      obtain ⟨⟨c, hc⟩, hothers⟩ := List.forall_mem_cons.mp h
      have hnext : ∀ j ∈ rest, ∃ c', f j (L.get j (L.set i c s)) = .ok c' := by
        intro j hj
        rw [L.get_set_of_ne i j c s fun hij => hi (hij ▸ hj)]
        exact hothers j hj
      obtain ⟨t, ht⟩ := ih hrest hnext
      exact ⟨t, Outcome.bind_eq_ok.mpr ⟨_, commitOne_eq_ok.mpr ⟨c, hc, rfl⟩, ht⟩⟩

/-- If in the state of the interruption the transactions that were committed can run again, then the
whole procedure can, and every component is related to what it is without the interruption. -/
theorem redo {R : (i : ι) → C i → C i → Prop} (hrefl : ∀ i c, R i c c)
    (hnodup : (done ++ rest).Nodup) (hrest : L.commitAll f rest e = .ok t)
    (hagain : ∀ i ∈ done, ∃ c, f i (L.get i e) = .ok c ∧ R i (L.get i e) c) :
    ∃ t', L.commitAll f (done ++ rest) e = .ok t' ∧ ∀ i, R i (L.get i t) (L.get i t') := by
  obtain ⟨-, hrestNodup, hdisjoint⟩ := List.nodup_append.mp hnodup
  obtain ⟨hin, hout⟩ := get_of_commitAll hrestNodup hrest
  have hall : ∀ i ∈ done ++ rest, ∃ c, f i (L.get i e) = .ok c := by
    intro i hi
    rcases List.mem_append.mp hi with hi | hi
    · obtain ⟨c, hc, -⟩ := hagain i hi
      exact ⟨c, hc⟩
    · exact ⟨_, hin i hi⟩
  obtain ⟨t', ht'⟩ := exists_commitAll hnodup hall
  obtain ⟨hin', hout'⟩ := get_of_commitAll hnodup ht'
  refine ⟨t', ht', ?_⟩
  intro i
  by_cases hi : i ∈ done ++ rest
  · have hi' := hin' i hi
    rcases List.mem_append.mp hi with hmem | hmem
    · obtain ⟨c, hc, hR⟩ := hagain i hmem
      rw [hc, Outcome.ok.injEq] at hi'
      rw [hout i fun hr => hdisjoint i hmem i hr rfl, ← hi']
      exact hR
    · rw [hin i hmem, Outcome.ok.injEq] at hi'
      rw [hi']
      exact hrefl _ _
  · rw [hout' i hi, hout i fun hr => hi (List.mem_append_right _ hr)]
    exact hrefl _ _

end Components

end Lib
