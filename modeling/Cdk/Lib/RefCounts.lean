import Mathlib.Data.Multiset.AddSub
import Cdk.Lib.OrderedMap

/-!
# Reference counts

A map of counted values stands for a multiset of keys: each key of the multiset
has an entry with its multiplicity, and no other key has one.
-/

namespace Lib

variable {κ υ : Type} [LinearOrder κ] {m : OrderedMap κ υ} {count : υ → Nat}
  {listed listed' : Multiset κ} {k : κ} {v : υ}

def Counts (count : υ → Nat) (m : OrderedMap κ υ) (listed : Multiset κ) : Prop :=
  ∀ k, (m.get? k).map count = if k ∈ listed then some (listed.count k) else none

namespace Counts

theorem empty : Counts count (.empty : OrderedMap κ υ) 0 := by
  intro k
  simp [OrderedMap.get?]

/-- The counts determine the multiset. -/
theorem unique (h : Counts count m listed) (h' : Counts count m listed') : listed = listed' := by
  refine Multiset.ext.mpr fun k => ?_
  have heq := (h k).symm.trans (h' k)
  by_cases hmem : k ∈ listed <;> by_cases hmem' : k ∈ listed'
  · simpa [hmem, hmem'] using heq
  · simp [hmem, hmem'] at heq
  · simp [hmem, hmem'] at heq
  · rw [Multiset.count_eq_zero.mpr hmem, Multiset.count_eq_zero.mpr hmem']

theorem get?_eq_none (h : Counts count m listed) : m.get? k = none ↔ k ∉ listed := by
  rw [← Option.map_eq_none_iff (f := count), h k]
  simp

theorem count_eq (h : Counts count m listed) (hget : m.get? k = some v) :
    k ∈ listed ∧ count v = listed.count k := by
  have heq := h k
  rw [hget, Option.map_some] at heq
  split at heq
  · next hmem => exact ⟨hmem, Option.some.inj heq⟩
  · cases heq

/-- An entry with the multiplicity of its key in another multiset that differs in it only. -/
theorem insert (h : Counts count m listed) (hmem : k ∈ listed') (hv : count v = listed'.count k)
    (hsame : ∀ k', k' ≠ k → listed'.count k' = listed.count k') :
    Counts count (m.insert k v) listed' := by
  intro k'
  by_cases heq : k' = k
  · subst heq
    simp [hv, hmem]
  · have hmem' : k' ∈ listed' ↔ k' ∈ listed := by
      rw [← Multiset.count_pos, ← Multiset.count_pos, hsame k' heq]
    rw [OrderedMap.get?_insert_of_ne heq, h k', hsame k' heq, if_congr hmem' rfl rfl]

/-- One more listing. -/
theorem increment (h : Counts count m listed) (hv : count v = listed.count k + 1) :
    Counts count (m.insert k v) (k ::ₘ listed) :=
  h.insert (Multiset.mem_cons_self k listed) (by rw [hv, Multiset.count_cons_self])
    fun _ hne => Multiset.count_cons_of_ne hne listed

/-- One listing less, with others left. -/
theorem decrement (h : Counts count m (k ::ₘ listed)) (hmem : k ∈ listed)
    (hv : count v = listed.count k) : Counts count (m.insert k v) listed :=
  h.insert hmem hv fun _ hne => (Multiset.count_cons_of_ne hne listed).symm

/-- The last listing goes. -/
theorem remove (h : Counts count m (k ::ₘ listed)) (hmem : k ∉ listed) :
    Counts count (m.remove k) listed := by
  intro k'
  by_cases heq : k' = k
  · subst heq
    simp [hmem]
  · rw [OrderedMap.get?_remove_of_ne heq, h k']
    simp [heq]

end Counts

end Lib
