import Cdk.Lib.Encoded
import Mathlib.Data.Set.Basic

/-!
# Tables that are filled by scanning

Indices are scanned, and what is found at each of them is written to a table.
If different indices find rows of different keys, the table holds a row once,
however often its index was scanned, and its total grows by what is found at new
indices only.
-/

namespace Lib

variable {ι κ ρ : Type} {key : ρ → κ}

/-- The table holds what is found at the indices of a set. -/
def HoldsAt (f : ι → Option ρ) (S : Set ι) (t : Table key) : Prop :=
  ∀ r, r ∈ t.rows ↔ ∃ x ∈ S, f x = some r

/-- Different indices of a set find rows of different keys. -/
def SeparateOn (key : ρ → κ) (f : ι → Option ρ) (U : Set ι) : Prop :=
  ∀ x ∈ U, ∀ x' ∈ U, ∀ r r', f x = some r → f x' = some r' → key r = key r' → x = x'

/-- The weight of what is found at an index. -/
def weightAt (w : ρ → Nat) (f : ι → Option ρ) (x : ι) : Nat := ((f x).map w).getD 0

theorem sum_filterMap (w : ρ → Nat) (f : ι → Option ρ) (xs : List ι) :
    ((xs.filterMap f).map w).sum = (xs.map (weightAt w f)).sum := by
  induction xs with
  | nil => rfl
  | cons x rest ih =>
      rw [List.filterMap_cons, List.map_cons, List.sum_cons, ← ih, weightAt]
      cases f x with
      | none => simp
      | some r => simp

namespace HoldsAt

variable {f : ι → Option ρ} {S U : Set ι} {t : Table key} {x : ι} {xs : List ι} {r : ρ}

theorem empty : HoldsAt f ∅ (Table.empty : Table key) := by
  intro r
  constructor
  · exact nofun
  · rintro ⟨x, hx, -⟩
    exact absurd hx (Set.notMem_empty x)

theorem congr {S' : Set ι} (h : HoldsAt f S t) (hS : ∀ x, x ∈ S ↔ x ∈ S') : HoldsAt f S' t := by
  intro r
  rw [h r]
  exact exists_congr fun x => and_congr_left fun _ => hS x

variable [DecidableEq κ]

/-- What is found at an index that has been scanned is there already. -/
theorem upsert_known (h : HoldsAt f S t) (hx : x ∈ S) (hr : f x = some r) : t.upsert r = t := by
  have hmem : r ∈ t.rows := (h r).mpr ⟨x, hx, hr⟩
  apply Table.ext_rows
  rw [Table.upsert_rows_of_mem ⟨r, hmem, rfl⟩]
  conv_rhs => rw [← List.map_id t.rows]
  apply List.map_congr_left
  intro r' hr'
  split
  next hkey => exact (Table.eq_of_key hr' hmem hkey).symm
  next => rfl

/-- Scanning new indices appends what is found at them. -/
theorem scan_rows (h : HoldsAt f S t) (hsep : SeparateOn key f U) (hS : S ⊆ U)
    (hU : ∀ x ∈ xs, x ∈ U) (hnd : xs.Nodup) (hnew : ∀ x ∈ xs, x ∉ S) :
    ((xs.filterMap f).foldl Table.upsert t).rows = t.rows ++ xs.filterMap f := by
  apply Table.foldl_upsert
  rw [List.map_append, List.nodup_append]
  refine ⟨t.nodup, ?_, ?_⟩
  · clear hnew
    induction xs with
    | nil => exact List.nodup_nil
    | cons x rest ih =>
        obtain ⟨hx, hnd⟩ := List.nodup_cons.mp hnd
        obtain ⟨hxU, hrestU⟩ := List.forall_mem_cons.mp hU
        rw [List.filterMap_cons]
        split
        next => exact ih hrestU hnd
        next r hr =>
          rw [List.map_cons, List.nodup_cons]
          refine ⟨fun hmem => ?_, ih hrestU hnd⟩
          obtain ⟨r', hr', hkey⟩ := List.mem_map.mp hmem
          obtain ⟨x', hx', hfound⟩ := List.mem_filterMap.mp hr'
          exact hx (hsep x' (hrestU x' hx') x hxU r' r hfound hr hkey ▸ hx')
  · intro k hk k' hk' heq
    obtain ⟨r, hr, rfl⟩ := List.mem_map.mp hk
    obtain ⟨r', hr', rfl⟩ := List.mem_map.mp hk'
    obtain ⟨x, hx, hfound⟩ := (h r).mp hr
    obtain ⟨x', hx', hfound'⟩ := List.mem_filterMap.mp hr'
    have hsame := hsep x (hS hx) x' (hU x' hx') r r' hfound hfound' heq
    exact hnew x' hx' (hsame ▸ hx)

/-- After scanning new indices the table holds what is found at all of them, and its total has
grown by that. -/
theorem scan (w : ρ → Nat) (h : HoldsAt f S t) (hsep : SeparateOn key f U) (hS : S ⊆ U)
    (hU : ∀ x ∈ xs, x ∈ U) (hnd : xs.Nodup) (hnew : ∀ x ∈ xs, x ∉ S) :
    HoldsAt f (S ∪ {x | x ∈ xs}) ((xs.filterMap f).foldl Table.upsert t) ∧
      ((xs.filterMap f).foldl Table.upsert t).sum w = t.sum w + (xs.map (weightAt w f)).sum := by
  have hrows := h.scan_rows hsep hS hU hnd hnew
  refine ⟨fun r => ?_, ?_⟩
  · rw [hrows, List.mem_append, h r, List.mem_filterMap]
    constructor
    · rintro (⟨x, hx, hr⟩ | ⟨x, hx, hr⟩)
      · exact ⟨x, .inl hx, hr⟩
      · exact ⟨x, .inr hx, hr⟩
    · rintro ⟨x, hx | hx, hr⟩
      · exact .inl ⟨x, hx, hr⟩
      · exact .inr ⟨x, hx, hr⟩
  · rw [Table.sum_of_rows w hrows, sum_filterMap]

/-- A scan that starts at an index that has been scanned before counts that index twice. -/
theorem scan_again (w : ρ → Nat) (h : HoldsAt f S t) (hsep : SeparateOn key f U) (hS : S ⊆ U)
    (hx : x ∈ S) (hU : ∀ x' ∈ xs, x' ∈ U) (hnd : xs.Nodup) (hnew : ∀ x' ∈ xs, x' ∉ S) :
    HoldsAt f (S ∪ {x' | x' ∈ x :: xs}) (((x :: xs).filterMap f).foldl Table.upsert t) ∧
      (((x :: xs).filterMap f).foldl Table.upsert t).sum w + weightAt w f x =
        t.sum w + ((x :: xs).map (weightAt w f)).sum := by
  have hfirst : ((x :: xs).filterMap f).foldl Table.upsert t =
      (xs.filterMap f).foldl Table.upsert t := by
    rw [List.filterMap_cons]
    split
    next => rfl
    next r hr => rw [List.foldl_cons, h.upsert_known hx hr]
  obtain ⟨hholds, hsum⟩ := h.scan w hsep hS hU hnd hnew
  rw [hfirst, hsum, List.map_cons, List.sum_cons]
  refine ⟨hholds.congr fun x' => ?_, by omega⟩
  constructor
  · rintro (hx' | hx')
    · exact .inl hx'
    · exact .inr (List.mem_cons_of_mem x hx')
  · rintro (hx' | hx')
    · exact .inl hx'
    · rcases List.mem_cons.mp hx' with rfl | hx'
      · exact .inl hx
      · exact .inr hx'

end HoldsAt

end Lib
