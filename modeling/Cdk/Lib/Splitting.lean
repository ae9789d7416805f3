import Mathlib.Data.List.Basic

/-!
# Words between separators

A separator that does not begin inside itself leaves no choice where a word is
cut. So the pieces of a word are determined by their intercalation, as long as
none of them contains the separator.
-/

namespace Lib

variable {α : Type} {sep : List α}

/-- A separator that does not begin before another one without ending there. -/
structure Unbordered (sep : List α) : Prop where
  ne_nil : sep ≠ []
  not_prefix : ∀ part rest, part ≠ [] → part.length < sep.length → ¬ sep <+: part ++ (sep ++ rest)

/-- A word without the separator. -/
def Unseparated (sep word : List α) : Prop := ¬ sep <:+: word

theorem Unseparated.of_infix {word part : List α} (h : Unseparated sep word)
    (hpart : part <:+: word) : Unseparated sep part := fun hsep => h (hsep.trans hpart)

theorem unseparated_singleton {a : α} {word : List α} : Unseparated [a] word ↔ a ∉ word := by
  rw [Unseparated, List.mem_iff_append]
  apply not_congr
  constructor
  · rintro ⟨s, t, h⟩
    exact ⟨s, t, by rw [← h, List.append_assoc, List.singleton_append]⟩
  · rintro ⟨s, t, h⟩
    exact ⟨s, t, by rw [h, List.append_assoc, List.singleton_append]⟩

theorem infix_intercalate (a : List α) {rest : List (List α)} (hrest : rest ≠ []) :
    sep <:+: sep.intercalate (a :: rest) := by
  rw [List.intercalate_cons_of_ne_nil hrest]
  exact ⟨a, sep.intercalate rest, rfl⟩

theorem unbordered_singleton (a : α) : Unbordered [a] where
  ne_nil := List.cons_ne_nil a []
  not_prefix part _ hne hlt := by
    have := List.length_pos_of_ne_nil hne
    have : part.length < 1 := hlt
    omega

namespace Unbordered

variable (hsep : Unbordered sep)

include hsep

/-- The first separator ends a piece that has none. -/
theorem not_prefix_append {part rest : List α} (hfree : Unseparated sep part) (hne : part ≠ []) :
    ¬ sep <+: part ++ (sep ++ rest) := by
  intro hprefix
  by_cases hlt : part.length < sep.length
  · exact hsep.not_prefix part rest hne hlt hprefix
  · have hpart : sep <+: part :=
      List.prefix_of_prefix_length_le hprefix (List.prefix_append _ _) (Nat.le_of_not_lt hlt)
    exact hfree hpart.isInfix

theorem eq_of_append {a b rest rest' : List α} (ha : Unseparated sep a) (hb : Unseparated sep b)
    (h : a ++ (sep ++ rest) = b ++ (sep ++ rest')) : a = b ∧ rest = rest' := by
  have hpieces : a = b := by
    rcases List.append_eq_append_iff.mp h with ⟨part, rfl, htail⟩ | ⟨part, rfl, htail⟩
    · by_cases hne : part = []
      · rw [hne, List.append_nil]
      · have hfree := hb.of_infix (List.suffix_append a part).isInfix
        exact absurd ⟨rest, htail⟩ (hsep.not_prefix_append hfree hne)
    · by_cases hne : part = []
      · rw [hne, List.append_nil]
      · have hfree := ha.of_infix (List.suffix_append b part).isInfix
        exact absurd ⟨rest', htail⟩ (hsep.not_prefix_append hfree hne)
  subst hpieces
  exact ⟨rfl, List.append_cancel_left (List.append_cancel_left h)⟩

/-- Pieces without the separator are determined by their intercalation. -/
theorem eq_of_intercalate {as bs : List (List α)} (has : ∀ a ∈ as, Unseparated sep a)
    (hbs : ∀ b ∈ bs, Unseparated sep b) (hane : as ≠ []) (hbne : bs ≠ [])
    (h : sep.intercalate as = sep.intercalate bs) : as = bs := by
  induction as generalizing bs with
  | nil => exact absurd rfl hane
  | cons a as ih =>
      obtain ⟨ha, hfree⟩ := List.forall_mem_cons.mp has
      cases bs with
      | nil => exact absurd rfl hbne
      | cons b bs =>
          obtain ⟨hb, hrest⟩ := List.forall_mem_cons.mp hbs
          by_cases hanil : as = []
          · by_cases hbnil : bs = []
            · subst hanil hbnil
              rw [List.intercalate_singleton, List.intercalate_singleton] at h
              rw [h]
            · subst hanil
              rw [List.intercalate_singleton] at h
              exact absurd (h ▸ infix_intercalate b hbnil) ha
          · by_cases hbnil : bs = []
            · subst hbnil
              rw [List.intercalate_singleton] at h
              exact absurd (h ▸ infix_intercalate a hanil) hb
            · rw [List.intercalate_cons_of_ne_nil hanil, List.intercalate_cons_of_ne_nil hbnil,
                List.append_assoc, List.append_assoc] at h
              obtain ⟨rfl, htail⟩ := hsep.eq_of_append ha hb h
              rw [ih hfree hrest hanil hbnil htail]

end Unbordered

end Lib
