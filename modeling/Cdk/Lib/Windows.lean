import Mathlib.Algebra.BigOperators.Intervals
import Mathlib.Data.Nat.Count

/-!
# Windows over the natural numbers

A line of numbers is read in windows of `w + 1` numbers that start at the
multiples of `w`, so that two neighbours share one number. Reading stops after
a number of empty windows in a row.

What the windows count together is what there is, with every shared number
counted twice.
-/

namespace Lib

section Counting

variable {p : Nat → Prop} [DecidablePred p]

theorem count_add_count_not (n : Nat) : Nat.count p n + Nat.count (fun i => ¬ p i) n = n := by
  induction n with
  | zero => simp
  | succ n ih =>
      rw [Nat.count_succ, Nat.count_succ]
      by_cases h : p n
      · rw [if_pos h, if_neg (not_not_intro h)]
        omega
      · rw [if_neg h, if_pos h]
        omega

/-- Nothing is counted beyond the last element. -/
theorem count_eq_of_le {m n : Nat} (hmn : m ≤ n) (h : ∀ i, m ≤ i → ¬ p i) :
    Nat.count p n = Nat.count p m := by
  obtain ⟨k, rfl⟩ := Nat.exists_eq_add_of_le hmn
  rw [Nat.count_add, Nat.count_iff_forall_not.mpr fun i _ => h (m + i) (Nat.le_add_right m i),
    Nat.add_zero]

/-- The number of elements in the window with an index. -/
def windowCount (p : Nat → Prop) [DecidablePred p] (w k : Nat) : Nat :=
  Nat.count (fun i => p (w * k + i)) (w + 1)

theorem windowCount_eq_zero {w k : Nat} :
    windowCount p w k = 0 ↔ ∀ i, w * k ≤ i → i ≤ w * k + w → ¬ p i := by
  rw [windowCount, Nat.count_iff_forall_not]
  constructor
  · intro h i hlow hhigh
    obtain ⟨j, rfl⟩ := Nat.exists_eq_add_of_le hlow
    exact h j (by omega)
  · intro h i hi
    exact h _ (Nat.le_add_right _ i) (by omega)

/-- The windows count every element, and once more where two of them meet. -/
theorem sum_windowCount (w n : Nat) :
    ∑ k ∈ Finset.range n, windowCount p w k =
      Nat.count p (w * n) + Nat.count (fun i => p (w * (i + 1))) n := by
  induction n with
  | zero => simp
  | succ n ih =>
      have hnext : Nat.count p (w * n + (w + 1)) = Nat.count p (w * n) + windowCount p w n :=
        Nat.count_add p (w * n) (w + 1)
      have hlast : w * n + (w + 1) = w * (n + 1) + 1 := by
        rw [Nat.mul_succ, Nat.add_assoc]
      rw [hlast, Nat.count_succ] at hnext
      rw [Finset.sum_range_succ, ih, Nat.count_succ (fun i => p (w * (i + 1)))]
      omega

end Counting

section Stopping

variable {p : Nat → Prop} [DecidablePred p] {w r m : Nat}

/-- No `r * w` numbers in a row that lie below `m` are all missing. -/
def NoGap (p : Nat → Prop) (w r m : Nat) : Prop :=
  ∀ a, a + r * w ≤ m → ∃ i, a ≤ i ∧ i < a + r * w ∧ p i

/-- The windows behind the last element are empty. -/
theorem windowCount_behind (hw : 0 < w) (hlast : ∀ i, p i → i ≤ m) {k : Nat} (hk : m / w < k) :
    windowCount p w k = 0 := by
  rw [windowCount_eq_zero]
  intro i hlow _ hi
  have hm : m < w * k := (Nat.div_lt_iff_lt_mul hw).mp hk |>.trans_eq (Nat.mul_comm k w)
  have := hlast i hi
  omega

/-- A number lies in the window with the index of its quotient. -/
theorem mem_window (hw : 0 < w) (i : Nat) : w * (i / w) ≤ i ∧ i ≤ w * (i / w) + w := by
  have hlt := Nat.lt_mul_div_succ i hw
  rw [Nat.mul_succ] at hlt
  exact ⟨Nat.mul_div_le i w, hlt.le⟩

/-- Without a gap, `r` empty windows in a row lie behind the last element. -/
theorem behind_of_empty (hw : 0 < w) (hm : p m) (hgap : NoGap p w r m) {k : Nat}
    (hempty : ∀ j, k ≤ j → j < k + r → windowCount p w j = 0) : m / w < k := by
  by_contra hle
  have hstart : k ≤ m / w := Nat.le_of_not_lt hle
  -- the window of the last element is none of the empty ones
  have hbehind : k + r ≤ m / w := by
    by_contra hin
    have hzero := windowCount_eq_zero.mp (hempty (m / w) hstart (by omega)) m
      (mem_window hw m).1 (mem_window hw m).2
    exact hzero hm
  have hend : w * (k + r) ≤ m :=
    (Nat.mul_le_mul_left w hbehind).trans (Nat.mul_div_le m w)
  have hsplit : w * k + r * w = w * (k + r) := by rw [Nat.mul_add, Nat.mul_comm r w]
  obtain ⟨i, hlow, hhigh, hi⟩ := hgap (w * k) (by omega)
  have hwindow : k ≤ i / w ∧ i / w < k + r := by
    constructor
    · rw [Nat.le_div_iff_mul_le hw, Nat.mul_comm]
      exact hlow
    · rw [Nat.div_lt_iff_lt_mul hw, Nat.mul_comm]
      omega
  have hzero := windowCount_eq_zero.mp (hempty (i / w) hwindow.1 hwindow.2) i
    (mem_window hw i).1 (mem_window hw i).2
  exact hzero hi

end Stopping

end Lib
