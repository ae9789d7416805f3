import Mathlib.Data.List.Nodup
import Mathlib.Data.Prod.Lex

/-!
# Maps with ordered keys

A map is the list of its entries in the order of their keys, so a range of
keys is a part of that list that a walk can start and stop in. Where the keys
are pairs in dictionary order, the entries of one first component lie together:
a walk that starts at its least key and stops at the first other component
passes exactly these entries.
-/

namespace Lib

section Walks

variable {α : Type} {p : α → Bool} {l : List α}

/-- A test that a list meets first and then no more selects the part before it fails. -/
theorem takeWhile_eq_filter (h : l.Pairwise fun a b => p b → p a) :
    l.takeWhile p = l.filter p := by
  induction l with
  | nil => rfl
  | cons a rest ih =>
      obtain ⟨hfirst, hrest⟩ := List.pairwise_cons.mp h
      cases ha : p a with
      | true => rw [List.takeWhile_cons_of_pos ha, List.filter_cons_of_pos ha, ih hrest]
      | false =>
          have hnone : rest.filter p = [] :=
            List.filter_eq_nil_iff.mpr fun b hb hp => by simp [hfirst b hb hp] at ha
          rw [List.takeWhile_cons_of_neg (by simp [ha]), List.filter_cons_of_neg (by simp [ha]),
            hnone]

/-- The part of a list behind such a test is what does not meet it. -/
theorem dropWhile_eq_filter (h : l.Pairwise fun a b => p b → p a) :
    l.dropWhile p = l.filter fun a => !p a := by
  induction l with
  | nil => rfl
  | cons a rest ih =>
      obtain ⟨hfirst, hrest⟩ := List.pairwise_cons.mp h
      cases ha : p a with
      | true => rw [List.dropWhile_cons_of_pos ha, List.filter_cons_of_neg (by simp [ha]), ih hrest]
      | false =>
          have hall : rest.filter (fun b => !p b) = rest :=
            List.filter_eq_self.mpr fun b hb => by
              by_contra hp
              simp [hfirst b hb (by simpa using hp)] at ha
          rw [List.dropWhile_cons_of_neg (by simp [ha]), List.filter_cons_of_pos (by simp [ha]),
            hall]

end Walks

/-- Entries in the strict order of their keys. -/
structure OrderedMap (κ υ : Type) [LT κ] where
  entries : List (κ × υ)
  sorted : entries.Pairwise fun a b => a.1 < b.1

namespace OrderedMap

def empty {κ υ : Type} [LT κ] : OrderedMap κ υ := ⟨[], List.Pairwise.nil⟩

@[simp] theorem empty_entries {κ υ : Type} [LT κ] : (empty : OrderedMap κ υ).entries = [] := rfl

variable {κ υ : Type} [LinearOrder κ] {m : OrderedMap κ υ} {k k' : κ} {v v' : υ} {e : κ × υ}

theorem keys_nodup : (m.entries.map Prod.fst).Nodup := by
  rw [List.Nodup, List.pairwise_map]
  exact m.sorted.imp fun h => ne_of_lt h

/-- A key has one value. -/
theorem value_unique (h : (k, v) ∈ m.entries) (h' : (k, v') ∈ m.entries) : v = v' :=
  congrArg Prod.snd (List.inj_on_of_nodup_map keys_nodup h h' rfl)

def get? (m : OrderedMap κ υ) (k : κ) : Option υ := (m.entries.find? (·.1 = k)).map Prod.snd

theorem get?_eq_some : m.get? k = some v ↔ (k, v) ∈ m.entries := by
  rw [get?, Option.map_eq_some_iff]
  constructor
  · rintro ⟨⟨k', v'⟩, hfind, rfl⟩
    have hkey : k' = k := by simpa using List.find?_some hfind
    exact hkey ▸ List.mem_of_find?_eq_some hfind
  · intro hmem
    cases hfind : m.entries.find? (·.1 = k) with
    | none => exact absurd hmem fun hmem => by simpa using List.find?_eq_none.mp hfind _ hmem
    | some found =>
        obtain ⟨k', v'⟩ := found
        have hkey : k' = k := by simpa using List.find?_some hfind
        subst hkey
        exact ⟨_, rfl, value_unique (List.mem_of_find?_eq_some hfind) hmem⟩

theorem get?_eq_none : m.get? k = none ↔ ∀ v, (k, v) ∉ m.entries := by
  rw [Option.eq_none_iff_forall_ne_some]
  exact forall_congr' fun v => not_congr get?_eq_some

/-- Put a value under a key, in place of the one that is there. -/
def insert (m : OrderedMap κ υ) (k : κ) (v : υ) : OrderedMap κ υ where
  entries := m.entries.filter (·.1 < k) ++ (k, v) :: m.entries.filter (k < ·.1)
  sorted := by
    simp only [List.pairwise_append, List.pairwise_cons, List.mem_filter, decide_eq_true_eq,
      List.mem_cons]
    refine ⟨m.sorted.filter _, ⟨fun e he => he.2, m.sorted.filter _⟩, ?_⟩
    rintro a ⟨-, ha⟩ b (rfl | ⟨-, hb⟩)
    · exact ha
    · exact ha.trans hb

@[simp] theorem mem_insert :
    e ∈ (m.insert k v).entries ↔ e = (k, v) ∨ e.1 ≠ k ∧ e ∈ m.entries := by
  simp only [insert, List.mem_append, List.mem_cons, List.mem_filter, decide_eq_true_eq,
    ne_iff_lt_or_gt]
  tauto

/-- Take a key and its value out. -/
def remove (m : OrderedMap κ υ) (k : κ) : OrderedMap κ υ :=
  ⟨m.entries.filter (·.1 ≠ k), m.sorted.filter _⟩

@[simp] theorem mem_remove : e ∈ (m.remove k).entries ↔ e.1 ≠ k ∧ e ∈ m.entries := by
  simp [remove, and_comm]

@[simp] theorem get?_insert_self : (m.insert k v).get? k = some v := by simp [get?_eq_some]

theorem get?_insert_of_ne (h : k' ≠ k) : (m.insert k v).get? k' = m.get? k' := by
  refine Option.ext fun w => ?_
  simp [get?_eq_some, h]

@[simp] theorem get?_remove_self : (m.remove k).get? k = none := by simp [get?_eq_none]

theorem get?_remove_of_ne (h : k' ≠ k) : (m.remove k).get? k' = m.get? k' := by
  refine Option.ext fun w => ?_
  simp [get?_eq_some, h]

/-- Putting one value under several keys. -/
theorem mem_foldl_insert {ι : Type} {f : ι → κ} {l : List ι} :
    e ∈ (l.foldl (fun m i => m.insert (f i) v) m).entries ↔
      (∃ i ∈ l, f i = e.1) ∧ e.2 = v ∨ (∀ i ∈ l, f i ≠ e.1) ∧ e ∈ m.entries := by
  obtain ⟨k', v'⟩ := e
  induction l generalizing m with
  | nil => simp
  | cons i rest ih =>
      rw [List.foldl_cons, ih, mem_insert, Prod.mk.injEq]
      simp only [List.mem_cons, ne_eq, exists_eq_or_imp]
      by_cases hi : f i = k' <;> grind

/-- Taking several keys out. -/
theorem mem_foldl_remove {ι : Type} {f : ι → κ} {l : List ι} :
    e ∈ (l.foldl (fun m i => m.remove (f i)) m).entries ↔
      (∀ i ∈ l, f i ≠ e.1) ∧ e ∈ m.entries := by
  induction l generalizing m with
  | nil => simp
  | cons i rest ih =>
      rw [List.foldl_cons, ih, mem_remove, List.forall_mem_cons, ne_comm]
      tauto

/-- A map is known by its entries. -/
theorem ext_entries {m' : OrderedMap κ υ} (h : ∀ e, e ∈ m.entries ↔ e ∈ m'.entries) : m = m' := by
  have hnodup (m : OrderedMap κ υ) : m.entries.Nodup := List.Nodup.of_map Prod.fst m.keys_nodup
  have hperm : m.entries.Perm m'.entries :=
    (List.perm_ext_iff_of_nodup (hnodup m) (hnodup m')).mpr h
  have hentries : m.entries = m'.entries :=
    hperm.eq_of_pairwise (fun a b _ _ hab hba => absurd hba (not_lt_of_gt hab)) m.sorted m'.sorted
  obtain ⟨entries, sorted⟩ := m
  cases hentries
  rfl

/-- The map of entries, in which the last value of a key stays. -/
def ofList (entries : List (κ × υ)) : OrderedMap κ υ :=
  entries.foldl (fun m e => m.insert e.1 e.2) empty

theorem mem_foldl_insert_entries {entries : List (κ × υ)} (h : (entries.map Prod.fst).Nodup) :
    e ∈ (entries.foldl (fun m e => m.insert e.1 e.2) m).entries ↔
      e ∈ entries ∨ e.1 ∉ entries.map Prod.fst ∧ e ∈ m.entries := by
  induction entries generalizing m with
  | nil => simp
  | cons entry rest ih =>
      rw [List.map_cons, List.nodup_cons] at h
      rw [List.foldl_cons, ih h.2, mem_insert, List.map_cons, List.mem_cons, List.mem_cons, not_or]
      constructor
      · rintro (he | ⟨hrest, rfl | ⟨hne, he⟩⟩)
        · exact .inl (.inr he)
        · exact .inl (.inl rfl)
        · exact .inr ⟨⟨hne, hrest⟩, he⟩
      · rintro ((rfl | he) | ⟨⟨hne, hrest⟩, he⟩)
        · exact .inr ⟨h.1, .inl rfl⟩
        · exact .inl he
        · exact .inr ⟨hrest, .inr ⟨hne, he⟩⟩

/-- The order in which the entries of a map arrive does not matter. -/
theorem ofList_perm {entries : List (κ × υ)} (h : entries.Perm m.entries) : ofList entries = m := by
  refine ext_entries fun e => ?_
  rw [ofList, mem_foldl_insert_entries (((h.map _).nodup_iff).mpr m.keys_nodup), h.mem_iff]
  simp

/-- The entries from a key on. -/
def rangeFrom (m : OrderedMap κ υ) (k : κ) : List (κ × υ) := m.entries.dropWhile (·.1 < k)

theorem rangeFrom_eq : m.rangeFrom k = m.entries.filter (k ≤ ·.1) := by
  rw [rangeFrom, dropWhile_eq_filter]
  · exact List.filter_congr fun e _ => by simp [← not_lt]
  · exact m.sorted.imp fun hab => by simpa using hab.trans

end OrderedMap

section Pairs

variable {τ υ : Type} [LinearOrder τ] {m : OrderedMap (τ ×ₗ Nat) υ} {t : τ}

/-- The entries that a walk passes which starts at the least key of a first component and stops
at another one. -/
theorem mem_takeWhile_rangeFrom {e : (τ ×ₗ Nat) × υ} :
    e ∈ (m.rangeFrom (toLex (t, 0))).takeWhile (fun e => (ofLex e.1).1 = t) ↔
      e ∈ m.entries ∧ (ofLex e.1).1 = t := by
  rw [OrderedMap.rangeFrom_eq, takeWhile_eq_filter]
  · simp only [List.mem_filter, decide_eq_true_eq]
    constructor
    · rintro ⟨⟨hmem, -⟩, ht⟩
      exact ⟨hmem, ht⟩
    · rintro ⟨hmem, rfl⟩
      refine ⟨⟨hmem, ?_⟩, rfl⟩
      exact Prod.Lex.le_iff.mpr (Or.inr ⟨rfl, Nat.zero_le _⟩)
  · -- between the least key of `t` and another key of `t` there are only keys of `t`
    refine List.Pairwise.imp_of_mem (fun {a b} ha hb hab => ?_) (m.sorted.filter _)
    simp only [List.mem_filter, decide_eq_true_eq] at ha ⊢
    intro hbt
    have hlow : t ≤ (ofLex a.1).1 := Prod.Lex.monotone_fst_ofLex ha.2
    have hhigh : (ofLex a.1).1 ≤ (ofLex b.1).1 := Prod.Lex.monotone_fst_ofLex hab.le
    exact le_antisymm (hbt ▸ hhigh) hlow

end Pairs

end Lib
