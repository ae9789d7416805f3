import Mathlib.Data.List.Nodup
import Mathlib.Data.List.Range
import Mathlib.Logic.Function.Basic

/-!
# Ranges taken from counters

Each key has a counter. Taking a range adds its length to the counter and gives
the numbers between the old and the new value, so no number of a key is given
twice, whoever takes the ranges and in whatever order.
-/

namespace Lib

/-- A range of numbers of a key. -/
structure Range (κ : Type) where
  key : κ
  start : ℕ
  length : ℕ
deriving DecidableEq, Repr

namespace Range

variable {κ : Type}

def indices (r : Range κ) : List ℕ := List.range' r.start r.length

theorem mem_indices {r : Range κ} {i : ℕ} :
    i ∈ r.indices ↔ r.start ≤ i ∧ i < r.start + r.length := List.mem_range'_1

/-- Two ranges of one key have no number in common. -/
def Apart (r r' : Range κ) : Prop := r.key = r'.key → List.Disjoint r.indices r'.indices

variable [DecidableEq κ]

/-- The numbers of a key that are in some ranges. -/
def taken (ranges : List (Range κ)) (k : κ) : List ℕ :=
  ranges.flatMap fun r => if r.key = k then r.indices else []

theorem taken_append (first second : List (Range κ)) (k : κ) :
    taken (first ++ second) k = taken first k ++ taken second k := by
  simp [taken]

theorem mem_taken {ranges : List (Range κ)} {k : κ} {i : ℕ} :
    i ∈ taken ranges k ↔ ∃ r ∈ ranges, r.key = k ∧ i ∈ r.indices := by
  rw [taken, List.mem_flatMap]
  constructor
  · rintro ⟨r, hr, hi⟩
    split at hi
    next hk => exact ⟨r, hr, hk, hi⟩
    next => cases hi
  · rintro ⟨r, hr, hk, hi⟩
    exact ⟨r, hr, by rwa [if_pos hk]⟩

/-- The ranges lie below the counters, and no number of a key is in two of them. -/
structure Handed (counters : κ → ℕ) (ranges : List (Range κ)) : Prop where
  below : ∀ r ∈ ranges, r.start + r.length ≤ counters r.key
  nodup : ∀ k, (taken ranges k).Nodup

theorem Handed.nil (counters : κ → ℕ) : Handed counters [] := ⟨by simp, fun _ => List.nodup_nil⟩

/-- A range that is taken from a counter contains only numbers that were in no range. -/
theorem Handed.take {counters : κ → ℕ} {ranges : List (Range κ)} (h : Handed counters ranges)
    (k : κ) (n : ℕ) :
    Handed (Function.update counters k (counters k + n)) (ranges ++ [⟨k, counters k, n⟩]) where
  below := by
    intro r hr
    rcases List.mem_append.mp hr with hr | hr
    · have hbelow := h.below r hr
      by_cases hk : r.key = k
      · rw [hk] at hbelow ⊢
        rw [Function.update_self]
        omega
      · rwa [Function.update_of_ne hk]
    · rw [List.mem_singleton] at hr
      subst hr
      rw [Function.update_self]
  nodup := by
    intro k'
    rw [taken_append]
    apply (h.nodup k').append
    · unfold taken
      rw [List.flatMap_singleton]
      split
      next => exact List.nodup_range'
      next => exact List.nodup_nil
    · intro i hold hnew
      obtain ⟨r, hr, rfl, hi⟩ := mem_taken.mp hold
      obtain ⟨r', hr', hk', hi'⟩ := mem_taken.mp hnew
      rw [List.mem_singleton] at hr'
      subst hr'
      have hbelow := h.below r hr
      have hlow := (mem_indices.mp hi').1
      have hhigh := (mem_indices.mp hi).2
      simp only at hk' hlow
      rw [hk'] at hlow
      omega

/-- An empty range takes nothing. -/
theorem Handed.skip {counters : κ → ℕ} {ranges : List (Range κ)} (h : Handed counters ranges)
    (k : κ) : Handed counters (ranges ++ [⟨k, 0, 0⟩]) where
  below := by
    intro r hr
    rcases List.mem_append.mp hr with hr | hr
    · exact h.below r hr
    · rw [List.mem_singleton] at hr
      subst hr
      exact Nat.zero_le _
  nodup := by
    intro k'
    rw [taken_append]
    simpa [taken, indices] using h.nodup k'

/-- Ranges that were taken from counters are apart. -/
theorem Handed.pairwise {counters : κ → ℕ} {ranges : List (Range κ)} (h : Handed counters ranges) :
    ranges.Pairwise Apart := by
  have hdisjoint : ∀ k, ranges.Pairwise fun r r' => r.key = k → Apart r r' := by
    intro k
    refine (List.nodup_flatMap.mp (h.nodup k)).2.imp ?_
    intro r r' hrr' hk hkey
    simpa [Function.onFun, ← hkey, hk] using hrr'
  apply List.pairwise_iff_getElem.mpr
  intro i j hi hj hij
  exact List.pairwise_iff_getElem.mp (hdisjoint _) i j hi hj hij rfl

end Range

end Lib
