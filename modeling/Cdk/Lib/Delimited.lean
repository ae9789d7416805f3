import Mathlib.Data.List.Basic

/-!
# Self-delimiting encodings

An encoding is self-delimiting when the encoded value and what follows it can
be told from their concatenation. Self-delimiting encodings compose: pairs,
fixed texts before and after, options and repetitions, as long as the first
symbol tells whether another item follows.
-/

namespace Lib

variable {α β χ : Type}

/-- The value and the rest are determined by the encoding followed by the rest. -/
def Delimited (enc : α → List χ) : Prop :=
  ∀ a b rest rest', enc a ++ rest = enc b ++ rest' → a = b ∧ rest = rest'

/-- The word begins with a symbol of the given kind. -/
def StartsWith (P : χ → Prop) (word : List χ) : Prop := ∃ c tail, word = c :: tail ∧ P c

theorem not_startsWith_nil {P : χ → Prop} : ¬ StartsWith P [] := by
  rintro ⟨c, tail, h, -⟩
  cases h

theorem startsWith_cons {P : χ → Prop} {c : χ} {tail : List χ} :
    StartsWith P (c :: tail) ↔ P c := by
  constructor
  · rintro ⟨c', tail', h, hc⟩
    cases h
    exact hc
  · intro hc
    exact ⟨c, tail, rfl, hc⟩

theorem StartsWith.append {P : χ → Prop} {word : List χ} (h : StartsWith P word)
    (rest : List χ) : StartsWith P (word ++ rest) := by
  obtain ⟨c, tail, rfl, hc⟩ := h
  exact ⟨c, tail ++ rest, rfl, hc⟩

namespace Delimited

variable {enc : α → List χ} {enc' : β → List χ}

theorem comp (h : Delimited enc) {f : β → α} (hf : Function.Injective f) :
    Delimited fun b => enc (f b) := by
  intro a b rest rest' heq
  obtain ⟨hab, hrest⟩ := h _ _ _ _ heq
  exact ⟨hf hab, hrest⟩

/-- A fixed word in front. -/
theorem prepend (h : Delimited enc) (word : List χ) : Delimited fun a => word ++ enc a := by
  intro a b rest rest' heq
  rw [List.append_assoc, List.append_assoc] at heq
  exact h _ _ _ _ (List.append_cancel_left heq)

/-- A fixed word behind. -/
theorem postpend (h : Delimited enc) (word : List χ) : Delimited fun a => enc a ++ word := by
  intro a b rest rest' heq
  rw [List.append_assoc, List.append_assoc] at heq
  obtain ⟨hab, hrest⟩ := h _ _ _ _ heq
  exact ⟨hab, List.append_cancel_left hrest⟩

theorem pair (h : Delimited enc) (h' : Delimited enc') :
    Delimited fun p : α × β => enc p.1 ++ enc' p.2 := by
  rintro ⟨a, b⟩ ⟨a', b'⟩ rest rest' heq
  dsimp only at heq
  rw [List.append_assoc, List.append_assoc] at heq
  obtain ⟨rfl, htail⟩ := h _ _ _ _ heq
  obtain ⟨rfl, hrest⟩ := h' _ _ _ _ htail
  exact ⟨rfl, hrest⟩

/-- Encodings that a reader takes back. -/
theorem of_read {read : List χ → Option (α × List χ)}
    (h : ∀ a rest, read (enc a ++ rest) = some (a, rest)) : Delimited enc := by
  intro a b rest rest' heq
  have hread := (h a rest).symm.trans ((congrArg read heq).trans (h b rest'))
  cases hread
  exact ⟨rfl, rfl⟩

/-- Injective encodings of one length. -/
theorem of_length (hinj : Function.Injective enc) {n : Nat} (hlen : ∀ a, (enc a).length = n) :
    Delimited enc := by
  intro a b rest rest' heq
  obtain ⟨hab, hrest⟩ := List.append_inj heq (by rw [hlen, hlen])
  exact ⟨hinj hab, hrest⟩

/-- Repetitions are determined when the first symbol tells an item from what follows. -/
theorem flatMap (h : Delimited enc) {P : χ → Prop} (hP : ∀ a, StartsWith P (enc a))
    {as bs : List α} {rest rest' : List χ} (hr : ¬ StartsWith P rest)
    (hr' : ¬ StartsWith P rest') (heq : as.flatMap enc ++ rest = bs.flatMap enc ++ rest') :
    as = bs ∧ rest = rest' := by
  induction as generalizing bs with
  | nil =>
      cases bs with
      | nil => exact ⟨rfl, heq⟩
      | cons b bs =>
          rw [List.flatMap_nil, List.nil_append, List.flatMap_cons, List.append_assoc] at heq
          exact absurd (heq ▸ (hP b).append _) hr
  | cons a as ih =>
      cases bs with
      | nil =>
          rw [List.flatMap_nil, List.nil_append, List.flatMap_cons, List.append_assoc] at heq
          exact absurd (heq ▸ (hP a).append _) hr'
      | cons b bs =>
          rw [List.flatMap_cons, List.flatMap_cons, List.append_assoc, List.append_assoc] at heq
          obtain ⟨rfl, htail⟩ := h _ _ _ _ heq
          obtain ⟨rfl, hrest⟩ := ih htail
          exact ⟨rfl, hrest⟩

/-- Repetitions up to a closing symbol. -/
theorem closed (h : Delimited enc) {P : χ → Prop} (hP : ∀ a, StartsWith P (enc a)) {stop : χ}
    (hstop : ¬ P stop) : Delimited fun as : List α => as.flatMap enc ++ [stop] := by
  intro as bs rest rest' heq
  dsimp only at heq
  rw [List.append_assoc, List.append_assoc, List.singleton_append, List.singleton_append] at heq
  obtain ⟨rfl, htail⟩ := h.flatMap hP (fun hs => hstop (startsWith_cons.mp hs))
    (fun hs => hstop (startsWith_cons.mp hs)) heq
  exact ⟨rfl, List.tail_eq_of_cons_eq htail⟩

/-- An optional part before a closing symbol. -/
theorem option (h : Delimited enc) {P : χ → Prop} (hP : ∀ a, StartsWith P (enc a)) {stop : χ}
    (hstop : ¬ P stop) : Delimited fun o : Option α => (o.elim [] enc) ++ [stop] := by
  have hlist : ∀ o : Option α, o.elim [] enc = o.toList.flatMap enc := by
    intro o
    cases o <;> simp
  have hinj : Function.Injective (Option.toList : Option α → List α) := by
    intro o o' heq
    cases o <;> cases o' <;> simp_all
  simpa only [hlist] using (h.closed hP hstop).comp hinj

/-- A comma-separated list between brackets. -/
theorem separated (h : Delimited enc) {P : χ → Prop} (hP : ∀ a, StartsWith P (enc a))
    {sep stop : χ} (hstop : ¬ P stop) (hne : stop ≠ sep) :
    Delimited fun as : List α =>
      (match as with
        | [] => []
        | a :: rest => enc a ++ rest.flatMap fun b => sep :: enc b) ++ [stop] := by
  have hsep : Delimited fun b => sep :: enc b := h.prepend [sep]
  have htail : Delimited fun as : List α => (as.flatMap fun b => sep :: enc b) ++ [stop] :=
    hsep.closed (P := fun c => c = sep) (fun b => ⟨sep, enc b, rfl, rfl⟩) hne
  intro as bs rest rest' heq
  cases as with
  | nil =>
      cases bs with
      | nil => exact ⟨rfl, by simpa using heq⟩
      | cons b bs =>
          simp only [List.nil_append, List.singleton_append, List.append_assoc] at heq
          have hs : StartsWith P (stop :: rest) := heq ▸ (hP b).append _
          exact absurd (startsWith_cons.mp hs) hstop
  | cons a as =>
      cases bs with
      | nil =>
          simp only [List.nil_append, List.singleton_append, List.append_assoc] at heq
          have hs : StartsWith P (stop :: rest') := heq ▸ (hP a).append _
          exact absurd (startsWith_cons.mp hs) hstop
      | cons b bs =>
          obtain ⟨hpair, hrest⟩ := h.pair htail (a, as) (b, bs) rest rest' (by
            simpa only [List.append_assoc] using heq)
          cases hpair
          exact ⟨rfl, hrest⟩

end Delimited

end Lib
