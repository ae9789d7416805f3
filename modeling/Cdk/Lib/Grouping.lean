import Cdk.Lib.Table
import Mathlib.Data.List.Perm.Basic

/-!
# Maps without an order

A map from keys to lists collects values one after the other, each at the end
of the list of its key, and is then read in an order of its own. Under any
order it holds the pairs of keys and values that went in, each as often.

A map that answers keys by removing them answers each key once: a repeated key
finds nothing.
-/

namespace Lib

/-! ## Grouping by a key -/

/-- The order in which the entries of a map are read. -/
structure MapOrder (κ υ : Type) where
  read : List (κ × υ) → List (κ × υ)
  perm : ∀ entries, (read entries).Perm entries

namespace MapOrder

/-- Entries are read as they were written. -/
def written (κ υ : Type) : MapOrder κ υ := ⟨id, fun _ => List.Perm.refl _⟩

end MapOrder

section Groups

variable {α κ β : Type} [DecidableEq κ]

/-- Add a value at the end of the list of its key. -/
def pushUnder (k : κ) (v : β) : List (κ × List β) → List (κ × List β)
  | [] => [(k, [v])]
  | (k', vs) :: rest =>
      if k' = k then (k', vs ++ [v]) :: rest else (k', vs) :: pushUnder k v rest

/-- Collect the values of a list by their keys. -/
def groupBy (key : α → κ) (value : α → β) (xs : List α) : List (κ × List β) :=
  xs.foldl (fun groups x => pushUnder (key x) (value x) groups) []

/-- The pairs that groups stand for. -/
def pairsOf (groups : List (κ × List β)) : List (κ × β) :=
  groups.flatMap fun group => group.2.map fun v => (group.1, v)

omit [DecidableEq κ] in
@[simp] theorem pairsOf_nil : pairsOf ([] : List (κ × List β)) = [] := rfl

omit [DecidableEq κ] in
@[simp] theorem pairsOf_cons (k : κ) (vs : List β) (groups : List (κ × List β)) :
    pairsOf ((k, vs) :: groups) = vs.map (fun v => (k, v)) ++ pairsOf groups := rfl

theorem pairsOf_pushUnder (k : κ) (v : β) (groups : List (κ × List β)) :
    (pairsOf (pushUnder k v groups)).Perm ((k, v) :: pairsOf groups) := by
  induction groups with
  | nil => exact List.Perm.refl _
  | cons group rest ih =>
      obtain ⟨k', vs⟩ := group
      rw [pushUnder]
      split
      next h =>
        subst h
        rw [pairsOf_cons, pairsOf_cons, List.map_append, List.append_assoc]
        exact List.perm_middle
      next =>
        rw [pairsOf_cons, pairsOf_cons]
        exact (ih.append_left _).trans List.perm_middle

theorem pairsOf_groupBy (key : α → κ) (value : α → β) (xs : List α) :
    (pairsOf (groupBy key value xs)).Perm (xs.map fun x => (key x, value x)) := by
  have hfold : ∀ groups : List (κ × List β),
      (pairsOf (xs.foldl (fun groups x => pushUnder (key x) (value x) groups) groups)).Perm
        (pairsOf groups ++ xs.map fun x => (key x, value x)) := by
    induction xs with
    | nil => simp
    | cons x rest ih =>
        intro groups
        rw [List.foldl_cons, List.map_cons]
        refine (ih _).trans ?_
        exact ((pairsOf_pushUnder _ _ _).append_right _).trans List.perm_middle.symm
  exact hfold []

/-- In whatever order the groups are read, they stand for the same pairs. -/
theorem pairsOf_read (order : MapOrder κ (List β)) (key : α → κ) (value : α → β) (xs : List α) :
    (pairsOf (order.read (groupBy key value xs))).Perm (xs.map fun x => (key x, value x)) :=
  ((order.perm _).flatMap_right _).trans (pairsOf_groupBy key value xs)

theorem mem_pushUnder {k : κ} {v : β} {groups : List (κ × List β)} {group : κ × List β}
    (h : group ∈ pushUnder k v groups) : group.1 = k ∨ ∃ old ∈ groups, old.1 = group.1 := by
  induction groups with
  | nil =>
      rw [List.mem_singleton.mp h]
      exact .inl rfl
  | cons first rest ih =>
      obtain ⟨k', vs⟩ := first
      rw [pushUnder] at h
      split at h
      next heq =>
        rcases List.mem_cons.mp h with rfl | h
        · exact .inl heq
        · exact .inr ⟨group, List.mem_cons_of_mem _ h, rfl⟩
      next =>
        rcases List.mem_cons.mp h with rfl | h
        · exact .inr ⟨_, List.mem_cons_self, rfl⟩
        · rcases ih h with hk | ⟨old, hold, hk⟩
          · exact .inl hk
          · exact .inr ⟨old, List.mem_cons_of_mem _ hold, hk⟩

/-- Every group is under the key of one of the values that went in. -/
theorem exists_of_mem_groupBy {key : α → κ} {value : α → β} {xs : List α} {group : κ × List β}
    (h : group ∈ groupBy key value xs) : ∃ x ∈ xs, key x = group.1 := by
  have hfold : ∀ groups : List (κ × List β),
      group ∈ xs.foldl (fun groups x => pushUnder (key x) (value x) groups) groups →
        (∃ old ∈ groups, old.1 = group.1) ∨ ∃ x ∈ xs, key x = group.1 := by
    clear h
    induction xs with
    | nil => exact fun groups h => .inl ⟨group, h, rfl⟩
    | cons x rest ih =>
        intro groups h
        rcases ih _ h with ⟨pushed, hpushed, hkey⟩ | ⟨x', hx', hkey⟩
        · rcases mem_pushUnder hpushed with hx | ⟨old, hold, hk⟩
          · exact .inr ⟨x, List.mem_cons_self, hx.symm.trans hkey⟩
          · exact .inl ⟨old, hold, hk.trans hkey⟩
        · exact .inr ⟨x', List.mem_cons_of_mem _ hx', hkey⟩
  rcases hfold [] h with ⟨_, hold, -⟩ | hx
  · cases hold
  · exact hx

end Groups

/-! ## Answering by removal -/

section Removal

variable {κ υ : Type} [DecidableEq κ]

/-- The value of a key. -/
def valueOf (entries : List (κ × υ)) (k : κ) : Option υ :=
  (entries.find? fun entry => entry.1 = k).map Prod.snd

/-- Answer keys in order, each by removing it. -/
def removeEach : List (κ × υ) → List κ → List (Option υ)
  | _, [] => []
  | entries, k :: rest =>
      valueOf entries k :: removeEach (entries.filter fun entry => entry.1 ≠ k) rest

variable {entries : List (κ × υ)} {k k' : κ} {ks : List κ}

theorem valueOf_filter_ne (entries : List (κ × υ)) (k k' : κ) :
    valueOf (entries.filter fun entry => entry.1 ≠ k) k' =
      if k' = k then none else valueOf entries k' := by
  induction entries with
  | nil => simp [valueOf]
  | cons entry rest ih =>
      unfold valueOf at ih ⊢
      by_cases hk : entry.1 = k
      · rw [List.filter_cons_of_neg (by simpa using hk), ih]
        by_cases hk' : k' = k
        · rw [if_pos hk', if_pos hk']
        · have hne : ¬ entry.1 = k' := fun h => hk' (h.symm.trans hk)
          rw [if_neg hk', if_neg hk', List.find?_cons_of_neg (by simpa using hne)]
      · rw [List.filter_cons_of_pos (by simpa using hk)]
        by_cases hk' : entry.1 = k'
        · have hne : ¬ k' = k := fun h => hk (hk'.trans h)
          rw [List.find?_cons_of_pos (by simpa using hk'), if_neg hne,
            List.find?_cons_of_pos (by simpa using hk')]
        · rw [List.find?_cons_of_neg (by simpa using hk'), ih,
            List.find?_cons_of_neg (by simpa using hk')]

/-- Where some keys have been removed before, these and the repeated ones must be answered as absent
keys are. -/
theorem zipWith_removeEach_of_gone {γ : Type} {f : κ → Option υ → γ} {entries' : List (κ × υ)}
    {gone : κ → Prop} (hgone : ∀ k, gone k → valueOf entries' k = none)
    (hkept : ∀ k, ¬ gone k → valueOf entries' k = valueOf entries k) :
    ks.zipWith f (removeEach entries' ks) = ks.map (fun k => f k (valueOf entries k)) ↔
      ∀ k ∈ ks, gone k ∨ 1 < ks.count k → f k (valueOf entries k) = f k none := by
  induction ks generalizing entries' gone with
  | nil => simp [removeEach]
  | cons k rest ih =>
      have hnow : f k (valueOf entries' k) = f k (valueOf entries k) ↔
          (gone k → f k (valueOf entries k) = f k none) := by
        by_cases h : gone k
        · rw [hgone k h, forall_prop_of_true h, eq_comm]
        · exact iff_of_true (by rw [hkept k h]) fun h' => absurd h' h
      have hlater := @ih (entries'.filter fun entry => entry.1 ≠ k)
        (fun x => gone x ∨ x = k) ?_ ?_
      · rw [removeEach, List.zipWith_cons_cons, List.map_cons, List.cons.injEq, hnow, hlater]
        constructor
        · rintro ⟨hfirst, hrest⟩ x hx hrepeated
          by_cases hxk : x = k
          · subst hxk
            rcases hrepeated with h | h
            · exact hfirst h
            · rw [List.count_cons_self] at h
              exact hrest x (List.count_pos_iff.mp (by omega)) (.inl (.inr rfl))
          · rw [List.count_cons_of_ne (Ne.symm hxk)] at hrepeated
            have hmem : x ∈ rest := (List.mem_cons.mp hx).resolve_left hxk
            exact hrest x hmem (hrepeated.imp_left Or.inl)
        · intro h
          refine ⟨fun hk => h k List.mem_cons_self (.inl hk), fun x hx hrepeated => ?_⟩
          have hmem : x ∈ k :: rest := List.mem_cons_of_mem k hx
          rcases hrepeated with (hx' | rfl) | hcount
          · exact h x hmem (.inl hx')
          · refine h x hmem (.inr ?_)
            have hpos := List.count_pos_iff.mpr hx
            rw [List.count_cons_self]
            omega
          · refine h x hmem (.inr ?_)
            exact Nat.lt_of_lt_of_le hcount List.count_le_count_cons
      · intro x hx
        rw [valueOf_filter_ne]
        by_cases hxk : x = k
        · exact if_pos hxk
        · rw [if_neg hxk]
          exact hgone x (hx.resolve_right hxk)
      · intro x hx
        obtain ⟨hkeep, hxk⟩ := not_or.mp hx
        rw [valueOf_filter_ne, if_neg hxk, hkept x hkeep]

/-- What is made of the answers is right exactly if every repeated key is answered as an absent
one is. -/
theorem zipWith_removeEach_iff {γ : Type} {f : κ → Option υ → γ} :
    ks.zipWith f (removeEach entries ks) = ks.map (fun k => f k (valueOf entries k)) ↔
      ∀ k, 1 < ks.count k → f k (valueOf entries k) = f k none := by
  rw [@zipWith_removeEach_of_gone κ υ _ entries ks γ f entries (fun _ => False)
    (fun _ h => h.elim) (fun _ _ => rfl)]
  constructor
  · intro h k hk
    exact h k (List.count_pos_iff.mp (by omega)) (.inr hk)
  · rintro h k - (hgone | hk)
    · exact hgone.elim
    · exact h k hk

/-- An answer is the value of its key, or none. -/
theorem forall₂_removeEach :
    List.Forall₂ (fun answer value => answer = none ∨ answer = value)
      (removeEach entries ks) (ks.map (valueOf entries)) := by
  have hkeeps : ∀ (ks : List κ) (entries' : List (κ × υ)),
      (∀ k, valueOf entries' k = none ∨ valueOf entries' k = valueOf entries k) →
        List.Forall₂ (fun answer value => answer = none ∨ answer = value)
          (removeEach entries' ks) (ks.map (valueOf entries)) := by
    intro ks
    induction ks with
    | nil => exact fun _ _ => .nil
    | cons k rest ih =>
        intro entries' h
        refine .cons (h k) (ih _ fun k' => ?_)
        rw [valueOf_filter_ne]
        split
        · exact .inl rfl
        · exact h k'
  exact hkeeps ks entries fun _ => .inr rfl

/-- An answer by removal is kept where no value is lost. -/
theorem forall₂_removeEach_of_kept
    {entries' : List (κ × υ)}
    (h : ∀ k ∈ ks, valueOf entries k = none ∨ valueOf entries k = valueOf entries' k) :
    List.Forall₂ (fun answer answer' => answer = none ∨ answer = answer')
      (removeEach entries ks) (removeEach entries' ks) := by
  induction ks generalizing entries entries' with
  | nil => exact .nil
  | cons k rest ih =>
      refine .cons (h k List.mem_cons_self) (ih fun k' hk' => ?_)
      rw [valueOf_filter_ne, valueOf_filter_ne]
      split
      · exact .inl rfl
      · exact h k' (List.mem_cons_of_mem k hk')

theorem valueOf_eq_none (h : ∀ entry ∈ entries, entry.1 ≠ k) : valueOf entries k = none := by
  rw [valueOf, Option.map_eq_none_iff, List.find?_eq_none]
  intro entry hentry
  simpa using h entry hentry

/-- The rows of a table that a query for keys selects, with what it reads of them. -/
def selectKeys {ρ : Type} {key : ρ → κ} (t : Table key) (value : ρ → Option υ) (ks : List κ) :
    List (κ × υ) :=
  (t.rows.filter fun r => key r ∈ ks).filterMap fun r => (value r).map fun v => (key r, v)

/-- What a query for keys says of one of them is what the table says. -/
theorem valueOf_selectKeys {ρ : Type} {key : ρ → κ} (t : Table key) (value : ρ → Option υ)
    (hk : k ∈ ks) : valueOf (selectKeys t value ks) k = (t.find? k).bind value := by
  obtain ⟨rows, hnodup⟩ := t
  simp only [selectKeys, Table.find?]
  induction rows with
  | nil => rfl
  | cons r rest ih =>
      obtain ⟨hfirst, hrest⟩ := List.nodup_cons.mp hnodup
      by_cases hkey : key r = k
      · subst hkey
        rw [List.filter_cons_of_pos (by simpa using hk), List.filterMap_cons,
          List.find?_cons_of_pos (by simp), Option.bind_some]
        cases hvalue : value r with
        | some v => simp [valueOf]
        | none =>
            apply valueOf_eq_none
            intro entry hentry
            obtain ⟨r', hr', hmap⟩ := List.mem_filterMap.mp hentry
            obtain ⟨v, -, rfl⟩ := Option.map_eq_some_iff.mp hmap
            intro heq
            exact hfirst (heq ▸ List.mem_map_of_mem (List.mem_of_mem_filter hr'))
      · rw [List.find?_cons_of_neg (by simpa using hkey), ← ih hrest]
        by_cases hselected : key r ∈ ks
        · rw [List.filter_cons_of_pos (by simpa using hselected), List.filterMap_cons]
          cases value r with
          | some v => simp [valueOf, hkey]
          | none => rfl
        · rw [List.filter_cons_of_neg (by simpa using hselected)]

/-- What is made of the answers to a query is right for all its keys exactly if every repeated one
is answered as an absent one is. -/
theorem zipWith_selectKeys_iff {ρ γ : Type} {key : ρ → κ} {t : Table key} {value : ρ → Option υ}
    {f : κ → Option υ → γ} :
    ks.zipWith f (removeEach (selectKeys t value ks) ks) =
        ks.map (fun k => f k ((t.find? k).bind value)) ↔
      ∀ k, 1 < ks.count k → f k ((t.find? k).bind value) = f k none := by
  have hmap : ks.map (fun k => f k ((t.find? k).bind value)) =
      ks.map (fun k => f k (valueOf (selectKeys t value ks) k)) :=
    List.map_congr_left fun k hk => by rw [valueOf_selectKeys t value hk]
  rw [hmap, zipWith_removeEach_iff]
  apply forall_congr'
  intro k
  apply imp_congr_right
  intro hk
  rw [valueOf_selectKeys t value (List.count_pos_iff.mp (by omega))]

/-- An answer to a query is what the table says of its key, or none. -/
theorem forall₂_selectKeys {ρ : Type} {key : ρ → κ} (t : Table key) (value : ρ → Option υ)
    (ks : List κ) : List.Forall₂ (fun answer value => answer = none ∨ answer = value)
      (removeEach (selectKeys t value ks) ks) (ks.map fun k => (t.find? k).bind value) := by
  have hmap : ks.map (fun k => (t.find? k).bind value) =
      ks.map (valueOf (selectKeys t value ks)) :=
    List.map_congr_left fun k hk => (valueOf_selectKeys t value hk).symm
  rw [hmap]
  exact forall₂_removeEach

theorem length_removeEach (entries : List (κ × υ)) (ks : List κ) :
    (removeEach entries ks).length = ks.length := by
  induction ks generalizing entries with
  | nil => rfl
  | cons k rest ih => rw [removeEach, List.length_cons, ih, List.length_cons]

end Removal

end Lib
