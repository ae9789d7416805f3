import Mathlib.Data.List.Nodup
import Mathlib.Data.List.Perm.Subperm
import Mathlib.Algebra.BigOperators.Group.List.Basic
import Mathlib.Algebra.Order.BigOperators.Group.List
import Mathlib.Algebra.Order.Group.Nat
import Mathlib.Algebra.Ring.Nat

/-!
# Tables with a primary key

A table is a list of rows in insertion order in which no key occurs twice.
Inserting refuses a present key, deleting keeps the order of the other rows,
and updating rewrites rows without touching their keys.
-/

namespace Lib

/-- Rows whose keys are pairwise different. -/
structure Table {κ ρ : Type} (key : ρ → κ) where
  rows : List ρ
  nodup : (rows.map key).Nodup

namespace Table

variable {κ ρ : Type} {key : ρ → κ} {t t' : Table key} {r r' : ρ} {k : κ}

theorem ext_rows (h : t.rows = t'.rows) : t = t' := by
  cases t
  cases t'
  cases h
  rfl

instance [DecidableEq ρ] : DecidableEq (Table key) := fun a b =>
  decidable_of_iff (a.rows = b.rows) ⟨ext_rows, fun h => h ▸ rfl⟩

def empty : Table key := ⟨[], by simp⟩

instance : Inhabited (Table key) := ⟨empty⟩

@[simp] theorem empty_rows : (empty : Table key).rows = [] := rfl

/-- A key determines its row. -/
theorem eq_of_key (hr : r ∈ t.rows) (hr' : r' ∈ t.rows) (h : key r = key r') : r = r' :=
  List.inj_on_of_nodup_map t.nodup hr hr' h

/-- Delete the rows a predicate selects. -/
def delete (t : Table key) (p : ρ → Bool) : Table key :=
  ⟨t.rows.filter fun r => !p r, (List.filter_sublist.map key).nodup t.nodup⟩

@[simp] theorem mem_delete {p : ρ → Bool} :
    r ∈ (t.delete p).rows ↔ r ∈ t.rows ∧ p r = false := by
  simp [delete]

theorem delete_eq_self {p : ρ → Bool} (h : ∀ r ∈ t.rows, p r = false) : t.delete p = t :=
  ext_rows (List.filter_eq_self.mpr fun r hr => by simp [h r hr])

/-- Deleting keeps the rows that a predicate selects if none of them is deleted. -/
theorem filter_delete {p q : ρ → Bool} (h : ∀ r ∈ t.rows, p r = true → q r = false) :
    (t.delete q).rows.filter p = t.rows.filter p := by
  rw [delete, List.filter_filter]
  apply List.filter_congr
  intro r hr
  cases hp : p r with
  | false => rfl
  | true => rw [h r hr hp, Bool.not_false, Bool.and_true]

/-- Rewrite every row, keeping its key. -/
def update (t : Table key) (f : ρ → ρ) (hf : ∀ r, key (f r) = key r) : Table key :=
  ⟨t.rows.map f, by
    rw [List.map_map, show key ∘ f = key from funext hf]
    exact t.nodup⟩

@[simp] theorem update_rows {f : ρ → ρ} {hf : ∀ r, key (f r) = key r} :
    (t.update f hf).rows = t.rows.map f := rfl

/-- Rewriting keeps the rows that a predicate selects if it changes none of them. -/
theorem filter_update {f : ρ → ρ} {hf : ∀ r, key (f r) = key r} {p : ρ → Bool}
    (h : ∀ r ∈ t.rows, p (f r) = p r ∧ (p r = true → f r = r)) :
    (t.update f hf).rows.filter p = t.rows.filter p := by
  have hsame : t.rows.filter (p ∘ f) = t.rows.filter p :=
    List.filter_congr fun r hr => (h r hr).1
  rw [update_rows, List.filter_map, hsame]
  conv_rhs => rw [← List.map_id (t.rows.filter p)]
  apply List.map_congr_left
  intro r hr
  obtain ⟨hr, hp⟩ := List.mem_filter.mp hr
  exact (h r hr).2 hp

/-- Deleting the appended rows gives the table before they were appended. -/
theorem delete_append {rs : List ρ} {p : ρ → Bool} (h : t'.rows = t.rows ++ rs)
    (hp : ∀ r ∈ rs, p r = true) (hn : ∀ r ∈ t.rows, p r = false) : t'.delete p = t := by
  apply ext_rows
  simp only [delete, h, List.filter_append]
  rw [List.filter_eq_self.mpr (by intro r hr; simp [hn r hr]),
    List.filter_eq_nil_iff.mpr (by intro r hr; simp [hp r hr]), List.append_nil]

/-- The keys of appended rows were not in the table before, and are pairwise different. -/
theorem fresh_of_append {rs : List ρ} (h : t'.rows = t.rows ++ rs) :
    (∀ r ∈ t.rows, key r ∉ rs.map key) ∧ (rs.map key).Nodup := by
  have hnd := t'.nodup
  rw [h, List.map_append, List.nodup_append] at hnd
  refine ⟨?_, hnd.2.1⟩
  intro r hr hmem
  exact hnd.2.2 _ (List.mem_map_of_mem hr) _ hmem rfl

section Lookup

variable [DecidableEq κ]

def find? (t : Table key) (k : κ) : Option ρ := t.rows.find? fun r => key r = k

theorem find?_eq_some : t.find? k = some r ↔ r ∈ t.rows ∧ key r = k := by
  constructor
  · intro h
    exact ⟨List.mem_of_find?_eq_some h, by simpa using List.find?_some h⟩
  · rintro ⟨hr, rfl⟩
    cases h : t.find? (key r) with
    | none =>
        have hn := List.find?_eq_none.mp h r hr
        simp at hn
    | some r' =>
        have hk : key r' = key r := by simpa using List.find?_some h
        rw [eq_of_key (List.mem_of_find?_eq_some h) hr hk]

theorem find?_eq_none : t.find? k = none ↔ ∀ r ∈ t.rows, key r ≠ k := by
  simp [find?]

/-- Insert a row unless its key is taken. -/
def insert? (t : Table key) (r : ρ) : Option (Table key) :=
  if h : key r ∈ t.rows.map key then none
  else some ⟨t.rows ++ [r], by
    rw [List.map_append, List.map_singleton]
    exact List.nodup_append.mpr ⟨t.nodup, List.nodup_singleton _, by
      intro a ha b hb hab
      rw [List.mem_singleton] at hb
      exact h (by rw [← hb, ← hab]; exact ha)⟩⟩

theorem insert?_eq_some :
    t.insert? r = some t' ↔ (∀ r' ∈ t.rows, key r' ≠ key r) ∧ t'.rows = t.rows ++ [r] := by
  unfold insert?
  split
  next h =>
    obtain ⟨r', hr', hk⟩ := List.mem_map.mp h
    constructor
    · intro hn
      cases hn
    · rintro ⟨hf, -⟩
      exact absurd hk (hf r' hr')
  next h =>
    have hf : ∀ r' ∈ t.rows, key r' ≠ key r := fun r' hr' hk =>
      h (List.mem_map.mpr ⟨r', hr', hk⟩)
    constructor
    · intro hs
      cases hs
      exact ⟨hf, rfl⟩
    · rintro ⟨-, hrows⟩
      exact congrArg some (ext_rows hrows.symm)

theorem insert?_eq_none : t.insert? r = none ↔ ∃ r' ∈ t.rows, key r' = key r := by
  unfold insert?
  split
  next h => simpa using List.mem_map.mp h
  next h =>
    simp only [reduceCtorEq, false_iff]
    intro hex
    exact h (List.mem_map.mpr hex)

/-- Insert rows in order, all or none. -/
def insertAll? (t : Table key) : List ρ → Option (Table key)
  | [] => some t
  | r :: rs => (t.insert? r).bind fun t₁ => t₁.insertAll? rs

theorem insertAll?_rows {rs : List ρ} (h : t.insertAll? rs = some t') :
    t'.rows = t.rows ++ rs := by
  induction rs generalizing t with
  | nil =>
      cases h
      simp
  | cons r rs ih =>
      obtain ⟨t₁, h₁, h₂⟩ := Option.bind_eq_some_iff.mp h
      rw [ih h₂, (insert?_eq_some.mp h₁).2]
      simp

/-- The keys of inserted rows were free and pairwise different. -/
theorem insertAll?_fresh {rs : List ρ} (h : t.insertAll? rs = some t') :
    (∀ r ∈ rs, ∀ r' ∈ t.rows, key r' ≠ key r) ∧ (rs.map key).Nodup := by
  have hnd := t'.nodup
  rw [insertAll?_rows h, List.map_append, List.nodup_append] at hnd
  refine ⟨?_, hnd.2.1⟩
  intro r hr r' hr' hk
  exact hnd.2.2 _ (List.mem_map_of_mem hr') _ (List.mem_map_of_mem hr) hk

/-- Put a row in the place of the row with its key, or append it. -/
def upsert (t : Table key) (r : ρ) : Table key :=
  match t.insert? r with
  | some t' => t'
  | none => t.update (fun r' => if key r' = key r then r else r') (by
      intro r'
      split
      next h => exact h.symm
      next => rfl)

theorem mem_upsert : r' ∈ (t.upsert r).rows ↔ r' = r ∨ r' ∈ t.rows ∧ key r' ≠ key r := by
  unfold upsert
  split
  next t' h =>
    obtain ⟨hfree, hrows⟩ := insert?_eq_some.mp h
    rw [hrows, List.mem_append, List.mem_singleton]
    constructor
    · rintro (hr | rfl)
      · exact .inr ⟨hr, hfree r' hr⟩
      · exact .inl rfl
    · rintro (rfl | ⟨hr, -⟩)
      · exact .inr rfl
      · exact .inl hr
  next h =>
    obtain ⟨r₀, hr₀, hk⟩ := insert?_eq_none.mp h
    rw [update_rows, List.mem_map]
    constructor
    · rintro ⟨r₁, hr₁, rfl⟩
      split
      next => exact .inl rfl
      next hne => exact .inr ⟨hr₁, hne⟩
    · rintro (rfl | ⟨hr, hne⟩)
      · exact ⟨r₀, hr₀, if_pos hk⟩
      · exact ⟨r', hr, if_neg hne⟩

/-- A row whose key is free is appended. -/
theorem upsert_rows (h : ∀ r' ∈ t.rows, key r' ≠ key r) : (t.upsert r).rows = t.rows ++ [r] := by
  unfold upsert
  split
  next t' ht' => exact (insert?_eq_some.mp ht').2
  next hnone =>
    obtain ⟨r', hr', hk⟩ := insert?_eq_none.mp hnone
    exact absurd hk (h r' hr')

/-- A row whose key is taken is put in the place of the row that has it. -/
theorem upsert_rows_of_mem (h : ∃ r' ∈ t.rows, key r' = key r) :
    (t.upsert r).rows = t.rows.map fun r' => if key r' = key r then r else r' := by
  unfold upsert
  split
  next t' ht' =>
    obtain ⟨r', hr', hk⟩ := h
    exact absurd hk ((insert?_eq_some.mp ht').1 r' hr')
  next => rfl

/-- Writing rows whose keys are free and pairwise different appends them. -/
theorem foldl_upsert {rs : List ρ} (h : ((t.rows ++ rs).map key).Nodup) :
    (rs.foldl upsert t).rows = t.rows ++ rs := by
  induction rs generalizing t with
  | nil => simp
  | cons r rs ih =>
      have hfree : ∀ r' ∈ t.rows, key r' ≠ key r := by
        rw [List.map_append, List.nodup_append] at h
        intro r' hr'
        exact h.2.2 (key r') (List.mem_map_of_mem hr') (key r) (by simp)
      have hrows := upsert_rows hfree
      rw [List.foldl_cons, ih (by rw [hrows]; simpa using h), hrows]
      simp

/-- Writing the rows of a table again gives the table. -/
theorem foldl_upsert_rows (t : Table key) : t.rows.foldl upsert empty = t := by
  apply ext_rows
  rw [foldl_upsert (by simpa using t.nodup)]
  simp

/-- After writing a row its key leads to it, and every other key to what it led to before. -/
theorem find?_upsert : (t.upsert r).find? k = if key r = k then some r else t.find? k := by
  apply Option.ext
  intro r'
  rw [find?_eq_some, mem_upsert]
  split
  next h =>
    rw [Option.some.injEq]
    constructor
    · rintro ⟨rfl | ⟨-, hne⟩, hk⟩
      · rfl
      · exact absurd (hk.trans h.symm) hne
    · rintro rfl
      exact ⟨.inl rfl, h⟩
  next h =>
    rw [find?_eq_some]
    constructor
    · rintro ⟨rfl | ⟨hr, -⟩, hk⟩
      · exact absurd hk h
      · exact ⟨hr, hk⟩
    · rintro ⟨hr, hk⟩
      exact ⟨.inr ⟨hr, fun h' => h (h'.symm.trans hk)⟩, hk⟩

/-- Deleting by key empties exactly the keys that are deleted. -/
theorem find?_delete_key {p : κ → Bool} :
    (t.delete fun r => p (key r)).find? k = if p k then none else t.find? k := by
  apply Option.ext
  intro r
  rw [find?_eq_some, mem_delete]
  split
  next h =>
    constructor
    · rintro ⟨⟨-, hp⟩, rfl⟩
      exact absurd h (by simp [hp])
    · rintro ⟨⟩
  next h =>
    rw [find?_eq_some]
    constructor
    · rintro ⟨⟨hr, -⟩, hk⟩
      exact ⟨hr, hk⟩
    · rintro ⟨hr, rfl⟩
      exact ⟨⟨hr, by simpa using h⟩, rfl⟩

/-- Writing a row keeps the rows that a predicate selects if it selects neither the row nor the one
in whose place it is put. -/
theorem filter_upsert {p : ρ → Bool} (hr : p r = false)
    (hold : ∀ r' ∈ t.rows, key r' = key r → p r' = false) :
    (t.upsert r).rows.filter p = t.rows.filter p := by
  unfold upsert
  split
  next t' h =>
    rw [(insert?_eq_some.mp h).2, List.filter_append]
    simp [hr]
  next =>
    apply filter_update
    intro r' hr'
    split
    next hk => simp [hr, hold r' hr' hk]
    next => exact ⟨rfl, fun _ => rfl⟩

/-- A row behind several writes is one of those that were written, or one from before whose key is
none of theirs. -/
theorem mem_foldl_upsert {rs : List ρ} (h : r' ∈ (rs.foldl upsert t).rows) :
    r' ∈ rs ∨ r' ∈ t.rows ∧ ∀ r ∈ rs, key r' ≠ key r := by
  induction rs generalizing t with
  | nil => exact .inr ⟨h, nofun⟩
  | cons r rs ih =>
      rcases ih h with hr' | ⟨hr', hne⟩
      · exact .inl (List.mem_cons_of_mem r hr')
      · rcases mem_upsert.mp hr' with rfl | ⟨hr', hfirst⟩
        · exact .inl List.mem_cons_self
        · exact .inr ⟨hr', List.forall_mem_cons.mpr ⟨hfirst, hne⟩⟩

theorem mem_foldl_upsert_of_key_ne {rs : List ρ} (hr' : r' ∈ t.rows)
    (hne : ∀ r ∈ rs, key r' ≠ key r) : r' ∈ (rs.foldl upsert t).rows := by
  induction rs generalizing t with
  | nil => exact hr'
  | cons r rs ih =>
      obtain ⟨hfirst, hrest⟩ := List.forall_mem_cons.mp hne
      exact ih (mem_upsert.mpr (.inr ⟨hr', hfirst⟩)) hrest

/-- Writing several rows keeps the rows that a predicate selects if it selects none of them and none
in whose place they are put. -/
theorem filter_foldl_upsert {rs : List ρ} {p : ρ → Bool} (hrs : ∀ r ∈ rs, p r = false)
    (hold : ∀ r' ∈ t.rows, (∃ r ∈ rs, key r = key r') → p r' = false) :
    (rs.foldl upsert t).rows.filter p = t.rows.filter p := by
  induction rs generalizing t with
  | nil => rfl
  | cons r rs ih =>
      obtain ⟨hr, hrs⟩ := List.forall_mem_cons.mp hrs
      have hrest : ∀ r' ∈ (t.upsert r).rows, (∃ r ∈ rs, key r = key r') → p r' = false := by
        rintro r' hr' ⟨r₁, hr₁, hkey⟩
        rcases mem_upsert.mp hr' with rfl | ⟨hr', -⟩
        · exact hr
        · exact hold r' hr' ⟨r₁, List.mem_cons_of_mem r hr₁, hkey⟩
      rw [List.foldl_cons, ih hrs hrest]
      exact filter_upsert hr fun r' hr' hkey => hold r' hr' ⟨r, List.mem_cons_self, hkey.symm⟩

/-- If as many rows as keys match a list of keys, the matching keys are that list. -/
theorem keys_perm {ks : List κ}
    (h : (t.rows.filter fun r => key r ∈ ks).length = ks.length) :
    ((t.rows.filter fun r => key r ∈ ks).map key).Perm ks := by
  have hnd : ((t.rows.filter fun r => key r ∈ ks).map key).Nodup :=
    (List.filter_sublist.map key).nodup t.nodup
  have hsub : ((t.rows.filter fun r => key r ∈ ks).map key) ⊆ ks := by
    intro k hk
    obtain ⟨r, hr, rfl⟩ := List.mem_map.mp hk
    simpa using (List.mem_filter.mp hr).2
  exact (List.subperm_of_subset hnd hsub).perm_of_length_le (by simp [h])

theorem nodup_of_length {ks : List κ}
    (h : (t.rows.filter fun r => key r ∈ ks).length = ks.length) : ks.Nodup :=
  (keys_perm h).nodup_iff.mp ((List.filter_sublist.map key).nodup t.nodup)

theorem exists_row_of_length {ks : List κ}
    (h : (t.rows.filter fun r => key r ∈ ks).length = ks.length) (hk : k ∈ ks) :
    ∃ r ∈ t.rows, key r = k := by
  obtain ⟨r, hr, rfl⟩ := List.mem_map.mp ((keys_perm h).mem_iff.mpr hk)
  exact ⟨r, (List.mem_filter.mp hr).1, rfl⟩

/-- Present, pairwise different keys match as many rows. -/
theorem length_filter_eq {ks : List κ} (hnd : ks.Nodup)
    (h : ∀ k ∈ ks, ∃ r ∈ t.rows, key r = k) :
    (t.rows.filter fun r => key r ∈ ks).length = ks.length := by
  have hperm : ((t.rows.filter fun r => key r ∈ ks).map key).Perm ks := by
    apply (List.perm_ext_iff_of_nodup
      ((List.filter_sublist.map key).nodup t.nodup) hnd).mpr
    intro k
    constructor
    · intro hk
      obtain ⟨r, hr, rfl⟩ := List.mem_map.mp hk
      simpa using (List.mem_filter.mp hr).2
    · intro hk
      obtain ⟨r, hr, rfl⟩ := h k hk
      exact List.mem_map_of_mem (List.mem_filter.mpr ⟨hr, by simpa using hk⟩)
  simpa using hperm.length_eq

end Lookup

/-! ## Totals -/

/-- The total weight of the rows. -/
def sum (t : Table key) (w : ρ → Nat) : Nat := (t.rows.map w).sum

@[simp] theorem sum_empty (w : ρ → Nat) : (empty : Table key).sum w = 0 := rfl

theorem sum_of_rows {rs : List ρ} (w : ρ → Nat) (h : t'.rows = t.rows ++ rs) :
    t'.sum w = t.sum w + (rs.map w).sum := by
  simp [sum, h]

theorem sum_update {f : ρ → ρ} {hf : ∀ r, key (f r) = key r} (w : ρ → Nat) :
    (t.update f hf).sum w = t.sum (fun r => w (f r)) := by
  simp [sum, Function.comp_def]

/-- Rewriting one row changes a total by what the row changes. -/
theorem sum_update_row {f : ρ → ρ} {hf : ∀ r, key (f r) = key r} {w : ρ → Nat} {d : Nat}
    (hr : r ∈ t.rows) (hone : w (f r) = w r + d)
    (hother : ∀ r' ∈ t.rows, key r' ≠ key r → w (f r') = w r') :
    (t.update f hf).sum w = t.sum w + d := by
  obtain ⟨before, after, hsplit⟩ := List.append_of_mem hr
  have hnd := t.nodup
  rw [hsplit, List.map_append, List.map_cons, List.nodup_append, List.nodup_cons] at hnd
  have hbefore : ∀ r' ∈ before, w (f r') = w r' := by
    intro r' hr'
    apply hother r' (by simp [hsplit, hr'])
    intro hk
    exact hnd.2.2 _ (List.mem_map_of_mem hr') _ List.mem_cons_self hk
  have hafter : ∀ r' ∈ after, w (f r') = w r' := by
    intro r' hr'
    apply hother r' (by simp [hsplit, hr'])
    intro hk
    exact hnd.2.1.1 (hk ▸ List.mem_map_of_mem hr')
  simp only [sum, update_rows, hsplit, List.map_append, List.map_cons, List.map_map,
    List.sum_append, List.sum_cons, hone]
  rw [List.map_congr_left (f := w ∘ f) hbefore, List.map_congr_left (f := w ∘ f) hafter]
  omega

theorem sum_le_sum {w v : ρ → Nat} (h : ∀ r ∈ t.rows, w r ≤ v r) : t.sum w ≤ t.sum v := by
  unfold sum
  exact List.sum_le_sum h

theorem sum_congr {w v : ρ → Nat} (h : ∀ r ∈ t.rows, w r = v r) : t.sum w = t.sum v := by
  unfold sum
  rw [List.map_congr_left h]

theorem sum_add (w v : ρ → Nat) : t.sum (fun r => w r + v r) = t.sum w + t.sum v := by
  simp [sum, List.sum_map_add]

/-- A total over selected rows. -/
theorem sum_ite (p : ρ → Bool) (w : ρ → Nat) :
    t.sum (fun r => if p r then w r else 0) = ((t.rows.filter p).map w).sum := by
  unfold sum
  induction t.rows with
  | nil => rfl
  | cons r rs ih => cases h : p r <;> simp [h, ih]

theorem sum_eq_zero {w : ρ → Nat} (h : ∀ r ∈ t.rows, w r = 0) : t.sum w = 0 := by
  rw [sum_congr h]
  simp [sum]

/-- Deleted rows and kept rows together carry the whole total. -/
theorem sum_delete (p : ρ → Bool) (w : ρ → Nat) :
    (t.delete p).sum w + t.sum (fun r => if p r then w r else 0) = t.sum w := by
  simp only [sum, delete]
  induction t.rows with
  | nil => rfl
  | cons r rs ih =>
      cases h : p r <;> simp [h] at ih ⊢ <;> omega

/-- Deleting rows of weight zero keeps the total. -/
theorem sum_delete_eq {p : ρ → Bool} {w : ρ → Nat}
    (h : ∀ r ∈ t.rows, p r = true → w r = 0) : (t.delete p).sum w = t.sum w := by
  have hz : t.sum (fun r => if p r then w r else 0) = 0 := by
    apply sum_eq_zero
    intro r hr
    by_cases hp : p r = true
    · simp [hp, h r hr hp]
    · simp [hp]
  have := t.sum_delete p w
  omega

end Table

end Lib
