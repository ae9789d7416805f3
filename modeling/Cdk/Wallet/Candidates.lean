import Cdk.Wallet.FeeCoverage
import Cdk.Wallet.Sufficiency
import Mathlib.Data.List.Permutation

/-!
# What can be selected

Which proofs are selected without fees depends on the orders of the sets and of
the map of fees. Whatever these are, it is one of three kinds of selections: the
proofs of inactive keysets where they are enough, these with one proof for each
part of the amount where there are as many, or else proofs of which none can be
dropped. So a condition on all such selections decides what the selection with
fees does, without a run of it.
-/

namespace Cdk

open Lib

namespace Selection

/-! ## Candidates -/

section Candidates

variable (amount : Amount) (proofs : List Proof) (activeKeysetIds : List Id)
  (fees : KeysetFeeAndAmounts)

/-- Proofs that are worth the amount, but not without any one of them. -/
def Least (selected : List Proof) : Prop :=
  amount.toNat ≤ worth selected ∧ ∀ p ∈ selected, worth selected < amount.toNat + p.amount.toNat

/-- The parts of the amount, for every keyset once. -/
def partsOfAll : List Amount :=
  fees.entries.rows.flatMap fun entry =>
    (amount.split entry.2.amounts : Outcome Error (List Amount)).getD []

/-- The amounts of the proofs of active keysets. -/
def activeAmounts : List Amount :=
  (proofs.filter fun p => p.keysetId ∈ activeKeysetIds).map Proof.amount

/-- All proofs of inactive keysets, and one of another keyset for each part. -/
def ByParts (selected : List Proof) : Prop :=
  (∀ p ∈ proofs, p.keysetId ∉ activeKeysetIds → p ∈ selected) ∧
    (activeAmounts selected activeKeysetIds).Perm (partsOfAll amount fees)

/-- There are proofs of active keysets for a part as often as it occurs. -/
def HasPart (part : Amount) : Prop :=
  (partsOfAll amount fees).count part ≤ (activeAmounts proofs activeKeysetIds).count part

/-- There are proofs of active keysets for all parts. -/
def HasParts : Prop :=
  ∀ part ∈ partsOfAll amount fees, HasPart amount proofs activeKeysetIds fees part

/-- The proofs of inactive keysets are not enough. -/
def NeedsActive : Prop := worth (inactiveProofs activeKeysetIds proofs) < amount.toNat

instance (selected : List Proof) : Decidable (Least amount selected) :=
  inferInstanceAs (Decidable (_ ∧ _))

instance (selected : List Proof) :
    Decidable (ByParts amount proofs activeKeysetIds fees selected) :=
  inferInstanceAs (Decidable (_ ∧ _))

instance (part : Amount) : Decidable (HasPart amount proofs activeKeysetIds fees part) :=
  inferInstanceAs (Decidable (_ ≤ _))

instance : Decidable (HasParts amount proofs activeKeysetIds fees) :=
  inferInstanceAs (Decidable (∀ part ∈ partsOfAll amount fees, _))

instance : Decidable (NeedsActive amount proofs activeKeysetIds) :=
  inferInstanceAs (Decidable (_ < _))

/-- Not all parts have proofs, so that halves of them are searched. -/
def Searching : Prop :=
  NeedsActive amount proofs activeKeysetIds ∧ ¬ HasParts amount proofs activeKeysetIds fees

/-- A selection without fees gets to its choice: the proofs are worth the amount, their sum is an
amount, and no denomination is zero if the amount is split. -/
structure Selectable : Prop where
  enough : amount.toNat ≤ worth proofs
  sums : worth proofs < 2 ^ 64
  positive : NeedsActive amount proofs activeKeysetIds →
    ∀ entry ∈ fees.entries.rows, ∀ d ∈ entry.2.amounts, 0 < d.toNat

/-- What can be selected where no fee is looked at. -/
def Candidate (selected : List Proof) : Prop :=
  if amount = .zero then selected = []
  else if NeedsActive amount proofs activeKeysetIds then
    Picked proofs selected ∧
      if HasParts amount proofs activeKeysetIds fees then
        ByParts amount proofs activeKeysetIds fees selected
      else Least amount selected
  else selected.Perm (inactiveProofs activeKeysetIds proofs)

instance (selected : List Proof) : Decidable (Picked proofs selected) :=
  decidable_of_iff (selected.Nodup ∧ ∀ p ∈ selected, p ∈ proofs)
    ⟨fun h => ⟨h.1, h.2⟩, fun h => ⟨h.nodup, h.mem⟩⟩

instance (selected : List Proof) :
    Decidable (Candidate amount proofs activeKeysetIds fees selected) :=
  inferInstanceAs (Decidable (if amount = .zero then _
    else if NeedsActive amount proofs activeKeysetIds then
      _ ∧ (if HasParts amount proofs activeKeysetIds fees then _ else _)
    else _))

/-- All lists of some of the proofs. -/
def selections : List (List Proof) := proofs.sublists.flatMap List.permutations'

/-- All denominations are powers of two, those of one keyset are enough for the amount, and the
counter of the search for halves does not wrap, as there are proofs for the larger parts. -/
structure Searchable : Prop where
  powers : ∀ entry ∈ fees.entries.rows, ∃ n, PowersBelow n entry.2.amounts
  enough : ∃ entry ∈ fees.entries.rows, ∃ n, PowersBelow n entry.2.amounts ∧ amount.toNat < 2 ^ n
  small : ∀ part ∈ partsOfAll amount fees, 2 ^ 31 ≤ part.toNat →
    HasPart amount proofs activeKeysetIds fees part

variable {amount proofs activeKeysetIds fees} {selected selected' : List Proof}

theorem NeedsActive.amount_ne (h : NeedsActive amount proofs activeKeysetIds) :
    amount ≠ .zero := by
  rintro rfl
  exact absurd h (Nat.not_lt_zero _)

/-- A candidate takes no proof twice, and only given ones. -/
theorem Candidate.picked (h : Candidate amount proofs activeKeysetIds fees selected) :
    Picked proofs selected := by
  unfold Candidate at h
  split_ifs at h
  · rw [h]
    exact ⟨List.nodup_nil, fun _ hp => absurd hp List.not_mem_nil⟩
  · exact h.1
  · exact h.1
  · exact (Picked.inactiveProofs activeKeysetIds proofs).perm h

/-- There are finitely many selections to look at. -/
theorem Picked.mem_selections (h : Picked proofs selected) : selected ∈ selections proofs := by
  obtain ⟨sub, hperm, hsub⟩ := List.subperm_of_subset h.nodup h.mem
  exact List.mem_flatMap.mpr
    ⟨sub, List.mem_sublists.mpr hsub, List.mem_permutations'.mpr hperm.symm⟩

instance {P : List Proof → Prop} [DecidablePred P] :
    Decidable (∀ selected, Candidate amount proofs activeKeysetIds fees selected → P selected) :=
  decidable_of_iff (∀ selected ∈ selections proofs,
      Candidate amount proofs activeKeysetIds fees selected → P selected)
    ⟨fun h selected hcandidate => h selected hcandidate.picked.mem_selections hcandidate,
      fun h selected _ => h selected⟩

theorem Least.perm (h : selected.Perm selected') (hleast : Least amount selected) :
    Least amount selected' := by
  unfold Least at *
  rw [← worth_perm h]
  exact ⟨hleast.1, fun p hp => hleast.2 p (h.mem_iff.mpr hp)⟩

theorem ByParts.perm (h : selected.Perm selected')
    (hparts : ByParts amount proofs activeKeysetIds fees selected) :
    ByParts amount proofs activeKeysetIds fees selected' :=
  ⟨fun p hp hinactive => h.mem_iff.mp (hparts.1 p hp hinactive),
    ((h.symm.filter _).map Proof.amount).trans hparts.2⟩

end Candidates

/-! ## Dropping what is not needed -/

/-- If the loop ends, the first proofs up to the last one are worth less than the amount, and the
last one is the smallest. -/
theorem leastFrom_least {proofs result : List Proof} {amount : Amount} {i : Nat}
    (hsorted : Descending proofs) (hle : amount.toNat ≤ worth proofs)
    (hbefore : worth (proofs.take i) < amount.toNat)
    (ih : ∀ part least, part.length < proofs.length → Descending part →
      selectLeastAmountOver part amount = .ok least → Least amount least)
    (h : leastFrom proofs amount i = .ok result) : Least amount result := by
  rcases leastFrom_cases h with ⟨hi, hleft | hright | ⟨hless, hnext⟩⟩ | ⟨hend, rfl⟩
  · exact ih _ result (by rw [List.length_take]; omega) (hsorted.sublist (List.take_sublist _ _))
      hleft
  · exact ih _ result (by rw [List.length_drop]; omega) (hsorted.sublist (List.drop_sublist _ _))
      hright
  · exact leastFrom_least hsorted hle hless ih hnext
  · -- without the last proof, which is the smallest, they are worth less than the amount
    refine ⟨hle, fun p hp => ?_⟩
    obtain ⟨front, last, rfl⟩ : ∃ front last, result = front ++ [last] :=
      (List.eq_nil_or_concat' result).resolve_left (List.ne_nil_of_mem hp)
    have hfront : worth front ≤ worth ((front ++ [last]).take i) := by
      have hlength : front.length ≤ i := by
        rw [List.length_append, List.length_singleton] at hend
        omega
      have hsub := List.take_sublist_take_left (l := front ++ [last]) hlength
      rw [List.take_left] at hsub
      exact worth_le_of_sublist hsub
    have hlast : last.amount.toNat ≤ p.amount.toNat := by
      rcases List.mem_append.mp hp with hfirst | hlast
      · exact (List.pairwise_append.mp hsorted).2.2 p hfirst last (List.mem_singleton_self last)
      · rw [List.mem_singleton.mp hlast]
    rw [worth_append, worth_cons, worth_nil]
    omega
termination_by proofs.length - i

/-- Of what remains when the unnecessary proofs are dropped, none can be dropped. -/
theorem selectLeastAmountOver_least {proofs result : List Proof} {amount : Amount}
    (hpos : 0 < amount.toNat) (hsorted : Descending proofs)
    (h : selectLeastAmountOver proofs amount = .ok result) : Least amount result := by
  have hspec := selectLeastAmountOver_spec h
  rw [selectLeastAmountOver, Outcome.bind_eq_ok] at h
  obtain ⟨total, htotal, h⟩ := h
  rw [totalAmount_eq_ok] at htotal
  split_ifs at h with hless hone
  · cases h
    obtain ⟨p, rfl⟩ := List.length_eq_one_iff.mp hone
    refine ⟨hspec.2, fun q hq => ?_⟩
    rw [List.mem_singleton.mp hq, worth_cons, worth_nil]
    omega
  · have hbefore : worth (proofs.take 0) < amount.toNat := by
      rw [List.take_zero, worth_nil]
      exact hpos
    apply leastFrom_least hsorted (htotal ▸ Nat.le_of_not_lt hless) hbefore _ h
    intro part least _ hpart hleast
    exact selectLeastAmountOver_least hpos hpart hleast
termination_by proofs.length

/-! ## The parts that are found -/

section Found

variable {proofs selected : List Proof} {activeKeysetIds : List Id} {amount : Amount}
  {fees : KeysetFeeAndAmounts} {remainingAmounts : List Amount}

/-- For each part a proof is taken or the part is left, and then all proofs of its amount are
selected. -/
theorem foldl_selectOptimal_parts (hsorted : Descending proofs) (parts : List Amount)
    (acc : List Proof × List Amount) :
    ∃ taken left, parts.foldl (selectOptimal proofs) acc = (acc.1 ++ taken, acc.2 ++ left) ∧
      (taken.map Proof.amount ++ left).Perm parts ∧
        ∀ a ∈ left, ∀ p ∈ proofs, p.amount = a → p ∈ acc.1 ++ taken := by
  induction parts generalizing acc with
  | nil => exact ⟨[], [], by simp, .refl _, by simp⟩
  | cons part parts ih =>
      rw [List.foldl_cons, selectOptimal]
      rcases selectProof_cases hsorted part true acc.1 with ⟨p, heq, hp⟩ | ⟨heq, hall⟩
      · have hp : p.amount = part := hp
        rw [heq]
        obtain ⟨taken, left, hlast, hperm, hleft⟩ := ih (acc.1 ++ [p], acc.2)
        refine ⟨p :: taken, left, ?_, ?_, ?_⟩
        · dsimp only at hlast ⊢
          rw [if_pos rfl, hlast, List.append_assoc, List.singleton_append]
        · rw [List.map_cons, hp]
          exact hperm.cons part
        · intro a ha q hq hamount
          have hmem := hleft a ha q hq hamount
          rwa [List.append_assoc, List.singleton_append] at hmem
      · rw [heq]
        obtain ⟨taken, left, hlast, hperm, hleft⟩ := ih (acc.1, acc.2 ++ [part])
        refine ⟨taken, part :: left, ?_, ?_, ?_⟩
        · dsimp only at hlast ⊢
          rw [if_neg (by decide), hlast, List.append_assoc, List.singleton_append]
        · exact List.perm_middle.trans (hperm.cons part)
        · intro a ha q hq hamount
          rcases List.mem_cons.mp ha with rfl | ha
          · exact List.mem_append_left _ (hall q hq hamount)
          · exact hleft a ha q hq hamount

theorem foldlM_selectForKeyset_parts (hsorted : Descending proofs)
    {entries : List (Id × Counters.FeeAndAmounts)} {acc last : List Proof × List Amount}
    (h : entries.foldlM (selectForKeyset amount proofs) acc = .ok last) :
    ∃ taken left, last = (acc.1 ++ taken, acc.2 ++ left) ∧
      (taken.map Proof.amount ++ left).Perm (entries.flatMap fun entry =>
        (amount.split entry.2.amounts : Outcome Error (List Amount)).getD []) ∧
        ∀ a ∈ left, ∀ p ∈ proofs, p.amount = a → p ∈ last.1 := by
  induction entries generalizing acc with
  | nil =>
      cases h
      exact ⟨[], [], by simp, .refl _, by simp⟩
  | cons entry entries ih =>
      rw [List.foldlM_cons, Outcome.bind_eq_ok] at h
      obtain ⟨next, hnext, h⟩ := h
      rw [selectForKeyset, Outcome.bind_eq_ok] at hnext
      obtain ⟨parts, hparts, hnext⟩ := hnext
      obtain ⟨taken, left, hlast, hperm, hleft⟩ := foldl_selectOptimal_parts hsorted parts acc
      rw [hlast] at hnext
      cases hnext
      obtain ⟨taken', left', rfl, hperm', hleft'⟩ := ih h
      refine ⟨taken ++ taken', left ++ left', by simp, ?_, ?_⟩
      · rw [List.flatMap_cons, hparts]
        refine List.Perm.trans ?_ (hperm.append hperm')
        rw [List.map_append, List.append_assoc, List.append_assoc]
        exact (List.perm_append_comm_assoc _ _ _).append_left _
      · intro a ha q hq hamount
        rcases List.mem_append.mp ha with ha | ha
        · exact List.mem_append_left _ (hleft a ha q hq hamount)
        · exact hleft' a ha q hq hamount

theorem count_amounts (proofs : List Proof) (a : Amount) :
    (proofs.map Proof.amount).count a = (proofs.filter fun p => p.amount = a).length := by
  rw [List.count_eq_countP, List.countP_map, List.countP_eq_length_filter]
  rfl

/-- What is taken for the parts: proofs of active keysets, and of those whose parts are left all. -/
theorem exists_taken (hsorted : Descending proofs) (hnodup : proofs.Nodup)
    (hselected : fees.entries.rows.foldlM (selectForKeyset amount proofs)
      (inactiveProofs activeKeysetIds proofs, []) = .ok (selected, remainingAmounts)) :
    ∃ taken, selected = inactiveProofs activeKeysetIds proofs ++ taken ∧
      activeAmounts selected activeKeysetIds = taken.map Proof.amount ∧
      (taken.map Proof.amount ++ remainingAmounts).Perm (partsOfAll amount fees) ∧
      ∀ a, (taken.map Proof.amount).count a ≤ (activeAmounts proofs activeKeysetIds).count a ∧
        (a ∈ remainingAmounts →
          (activeAmounts proofs activeKeysetIds).count a ≤ (taken.map Proof.amount).count a) := by
  obtain ⟨taken, left, hlast, hperm, hleft⟩ := foldlM_selectForKeyset_parts hsorted hselected
  have hpicked : Picked proofs selected :=
    (Picked.inactiveProofs activeKeysetIds proofs).selectForKeyset hselected
  obtain ⟨rfl, rfl⟩ := Prod.mk.inj hlast
  have hnew := List.nodup_append.mp hpicked.nodup
  have hactive : ∀ p ∈ taken, p.keysetId ∈ activeKeysetIds := by
    intro p hp
    -- an inactive proof is selected before the parts
    by_contra hid
    have hmem : p ∈ proofs := hpicked.mem p (List.mem_append_right _ hp)
    have hfirst : p ∈ inactiveProofs activeKeysetIds proofs :=
      List.mem_dedup.mpr (List.mem_filter.mpr ⟨hmem, decide_eq_true hid⟩)
    exact hnew.2.2 p hfirst p hp rfl
  have hinactive : ∀ p ∈ inactiveProofs activeKeysetIds proofs, p.keysetId ∉ activeKeysetIds :=
    fun p hp => of_decide_eq_true (List.mem_filter.mp (List.mem_dedup.mp hp)).2
  refine ⟨taken, rfl, ?_, hperm, fun a => ⟨?_, fun ha => ?_⟩⟩
  · have hnone : (inactiveProofs activeKeysetIds proofs).filter
        (fun p => p.keysetId ∈ activeKeysetIds) = [] :=
      List.filter_eq_nil_iff.mpr fun p hp hid => hinactive p hp (of_decide_eq_true hid)
    have hall : taken.filter (fun p => p.keysetId ∈ activeKeysetIds) = taken :=
      List.filter_eq_self.mpr fun p hp => decide_eq_true (hactive p hp)
    rw [activeAmounts, List.filter_append, hnone, hall, List.nil_append]
  · have hsub : taken.Subperm (proofs.filter fun p => p.keysetId ∈ activeKeysetIds) := by
      apply List.subperm_of_subset hnew.2.1
      intro p hp
      exact List.mem_filter.mpr
        ⟨hpicked.mem p (List.mem_append_right _ hp), decide_eq_true (hactive p hp)⟩
    obtain ⟨others, hperm, hothers⟩ := hsub
    rw [← (hperm.map Proof.amount).count_eq]
    exact (hothers.map Proof.amount).count_le a
  · rw [activeAmounts, count_amounts, count_amounts]
    apply (List.subperm_of_subset ((hnodup.filter _).filter _) _).length_le
    intro p hp
    obtain ⟨hp, hamount⟩ := List.mem_filter.mp hp
    obtain ⟨hp, hid⟩ := List.mem_filter.mp hp
    have hmem := hleft a ha p hp (of_decide_eq_true hamount)
    refine List.mem_filter.mpr ⟨?_, hamount⟩
    exact (List.mem_append.mp hmem).resolve_left fun hfirst =>
      hinactive p hfirst (of_decide_eq_true hid)

/-- No part remains exactly if there are proofs for all parts. -/
theorem remaining_spec (hsorted : Descending proofs) (hnodup : proofs.Nodup)
    (hselected : fees.entries.rows.foldlM (selectForKeyset amount proofs)
      (inactiveProofs activeKeysetIds proofs, []) = .ok (selected, remainingAmounts)) :
    (∀ a ∈ remainingAmounts, ¬ HasPart amount proofs activeKeysetIds fees a) ∧
      (remainingAmounts = [] ↔ HasParts amount proofs activeKeysetIds fees) ∧
      (remainingAmounts = [] → ByParts amount proofs activeKeysetIds fees selected) := by
  obtain ⟨taken, hsplit, hactive, hperm, hcounts⟩ := exists_taken hsorted hnodup hselected
  have hcount (a : Amount) : (partsOfAll amount fees).count a =
      (taken.map Proof.amount).count a + remainingAmounts.count a := by
    rw [← hperm.count_eq, List.count_append]
  have hlacks : ∀ a ∈ remainingAmounts, ¬ HasPart amount proofs activeKeysetIds fees a := by
    intro a ha hhas
    have hmore := List.count_pos_iff.mpr ha
    have hless := (hcounts a).2 ha
    unfold HasPart at hhas
    rw [hcount] at hhas
    omega
  refine ⟨hlacks, ⟨fun hnone part _ => ?_, fun hparts => ?_⟩, fun hnone => ⟨?_, ?_⟩⟩
  · unfold HasPart
    rw [hcount, hnone, List.count_nil, Nat.add_zero]
    exact (hcounts part).1
  · apply List.eq_nil_iff_forall_not_mem.mpr
    intro a ha
    exact hlacks a ha (hparts a (hperm.mem_iff.mp (List.mem_append_right _ ha)))
  · intro p hp hid
    rw [hsplit]
    exact List.mem_append_left _
      (List.mem_dedup.mpr (List.mem_filter.mpr ⟨hp, decide_eq_true hid⟩))
  · rw [hactive]
    rwa [hnone, List.append_nil] at hperm

theorem Searchable.suffices (h : Searchable amount proofs activeKeysetIds fees)
    (hsorted : Descending proofs) (hnodup : proofs.Nodup)
    (hpower : ∀ p ∈ proofs, ∃ j, p.amount.toNat = 2 ^ j) :
    Suffices doubleI32 fees amount proofs (inactiveProofs activeKeysetIds proofs) where
  powers := h.powers
  enough := h.enough
  adds selected remainingAmounts hselected a ha := by
    obtain ⟨taken, -, -, hperm, -⟩ := exists_taken hsorted hnodup hselected
    have hpart : a ∈ partsOfAll amount fees := hperm.mem_iff.mp (List.mem_append_right _ ha)
    have hlacks := (remaining_spec hsorted hnodup hselected).1 a ha
    obtain ⟨k, hk⟩ : ∃ k, a.toNat = 2 ^ k := by
      obtain ⟨entry, hentry, hmem⟩ := List.mem_flatMap.mp hpart
      obtain ⟨n, hpowers⟩ := h.powers entry hentry
      rw [hpowers.split_eq] at hmem
      obtain ⟨-, k, -, hk⟩ := hpowers.mem_split hmem
      exact ⟨k, hk⟩
    have hsmall : 2 ^ k < 2 ^ 31 := by
      rw [← hk]
      exact Nat.lt_of_not_le fun hlarge => hlacks (h.small a hpart hlarge)
    have hk31 : k < 31 := (Nat.pow_lt_pow_iff_right (by decide)).mp hsmall
    exact adds_doubleI32 hsorted hpower ⟨k, Nat.le_of_lt_succ hk31, hk⟩

end Found

/-! ## The selection without fees -/

section Selected

variable {order feeOrder : HashOrder} {amount : Amount} {proofs chosen : List Proof}
  {activeKeysetIds : List Id} {fees : KeysetFeeAndAmounts}

theorem toNat_pos (hzero : amount ≠ .zero) : 0 < amount.toNat :=
  Nat.pos_of_ne_zero fun h => hzero (Amount.ext_toNat h)

theorem chosen_spec {double : Int → Int}
    (h : ¬ HasParts amount proofs activeKeysetIds fees →
      Suffices double fees amount proofs (inactiveProofs activeKeysetIds proofs) ∧
        ∀ p ∈ proofs, 0 < p.amount.toNat)
    (hsorted : Descending proofs) (hnodup : proofs.Nodup) (hle : amount.toNat ≤ worth proofs)
    (hzero : amount ≠ .zero)
    (hchosen : chooseProofsBy double order amount proofs (inactiveProofs activeKeysetIds proofs)
      fees = .ok chosen) :
    if HasParts amount proofs activeKeysetIds fees then
      ByParts amount proofs activeKeysetIds fees chosen
    else Least amount chosen := by
  have hinactive := Picked.inactiveProofs activeKeysetIds proofs
  have hpicked := hinactive.chooseProofsBy hchosen
  have hresult := hchosen
  rw [chooseProofsBy, Outcome.bind_eq_ok] at hchosen
  obtain ⟨⟨selected, remainingAmounts⟩, hselected, hchosen⟩ := hchosen
  obtain ⟨-, hfound, hparts⟩ := remaining_spec hsorted hnodup hselected
  dsimp only at hchosen
  by_cases hnone : remainingAmounts = []
  · rw [if_pos (hfound.mp hnone)]
    rw [if_pos hnone] at hchosen
    cases hchosen
    exact (hparts hnone).perm (order.perm _).symm
  · obtain ⟨hsuffices, hpositive⟩ := h (mt hfound.mpr hnone)
    have hworth := le_worth_chooseProofsBy hsuffices hnodup hle hinactive hsorted hresult
    rw [if_neg (mt hfound.mpr hnone)]
    rw [if_neg hnone, Outcome.bind_eq_ok] at hchosen
    obtain ⟨total, htotal, hchosen⟩ := hchosen
    rw [totalAmount_eq_ok] at htotal
    split at hchosen
    · exact selectLeastAmountOver_least (toNat_pos hzero) (descending_sortDescending _) hchosen
    next hdone =>
      cases hchosen
      refine ⟨hworth, fun p hp => ?_⟩
      have hpos := hpositive p (hpicked.mem p hp)
      by_cases hexact : total = amount
      · rw [hexact] at htotal
        omega
      · -- a single proof
        have hone := List.length_pos_of_mem hp
        obtain ⟨q, hq⟩ := List.length_eq_one_iff.mp
          (Nat.le_antisymm (Nat.le_of_not_lt fun hmore => hdone ⟨hexact, hmore⟩) hone)
        rw [hq] at hp ⊢
        have := toNat_pos hzero
        rw [List.mem_singleton.mp hp, worth_cons, worth_nil]
        omega

/-- The parts that have proofs do not depend on the order of the proofs. -/
theorem hasPart_perm {others : List Proof} (h : proofs.Perm others) (a : Amount) :
    HasPart amount proofs activeKeysetIds fees a ↔
      HasPart amount others activeKeysetIds fees a := by
  unfold HasPart activeAmounts
  rw [((h.filter _).map Proof.amount).count_eq]

theorem Searchable.perm {others : List Proof} (hperm : proofs.Perm others)
    (h : Searchable amount proofs activeKeysetIds fees) :
    Searchable amount others activeKeysetIds fees where
  powers := h.powers
  enough := h.enough
  small a ha hlarge := (hasPart_perm hperm a).mp (h.small a ha hlarge)

theorem hasParts_perm {others : List Proof} (h : proofs.Perm others) :
    HasParts amount proofs activeKeysetIds fees ↔ HasParts amount others activeKeysetIds fees :=
  forall₂_congr fun a _ => hasPart_perm h a

/-- What a search needs, for the sorted proofs. -/
theorem Searchable.sorted (hnodup : proofs.Nodup)
    (hpower : ∀ p ∈ proofs, ∃ k, p.amount.toNat = 2 ^ k)
    (h : Searchable amount proofs activeKeysetIds fees) :
    Suffices doubleI32 fees amount (sortDescending proofs)
        (inactiveProofs activeKeysetIds (sortDescending proofs)) ∧
      ∀ p ∈ sortDescending proofs, 0 < p.amount.toNat := by
  have hperm := sortDescending_perm proofs
  have hpower' : ∀ p ∈ sortDescending proofs, ∃ k, p.amount.toNat = 2 ^ k := fun p hp =>
    hpower p (hperm.mem_iff.mp hp)
  refine ⟨(h.perm hperm.symm).suffices (descending_sortDescending proofs)
    (hperm.nodup_iff.mpr hnodup) hpower', fun p hp => ?_⟩
  obtain ⟨k, hk⟩ := hpower' p hp
  exact hk ▸ Nat.two_pow_pos k

/-- If the amount is split for all keysets, no denomination is zero. -/
theorem positive_of_foldlM {entries : List (Id × Counters.FeeAndAmounts)}
    {acc last : List Proof × List Amount}
    (h : entries.foldlM (selectForKeyset amount proofs) acc = .ok last) :
    ∀ entry ∈ entries, ∀ d ∈ entry.2.amounts, 0 < d.toNat := by
  induction entries generalizing acc with
  | nil => exact fun entry hentry => absurd hentry List.not_mem_nil
  | cons entry entries ih =>
      rw [List.foldlM_cons, Outcome.bind_eq_ok] at h
      obtain ⟨next, hnext, h⟩ := h
      refine List.forall_mem_cons.mpr ⟨fun d hd => ?_, ih h⟩
      rw [selectForKeyset, Amount.split] at hnext
      split at hnext
      · cases hnext
      next hany =>
        exact Nat.pos_of_ne_zero fun hzero =>
          hany (List.any_eq_true.mpr ⟨d, hd, decide_eq_true hzero⟩)

/-- A selection that is made was selectable. -/
theorem selectable_of_ok (hzero : amount ≠ .zero)
    (h : selectProofs order feeOrder amount proofs activeKeysetIds fees false = .ok chosen) :
    Selectable amount proofs activeKeysetIds fees := by
  obtain ⟨hle, hlt, hcases⟩ := (selectFrom_eq_ok hzero).mp h
  refine ⟨hle, hlt, fun hneeds => ?_⟩
  rw [if_neg (Nat.not_le_of_lt hneeds)] at hcases
  obtain ⟨before, hbefore, -⟩ := hcases
  rw [chooseProofs, chooseProofsBy, Outcome.bind_eq_ok] at hbefore
  obtain ⟨last, hlast, -⟩ := hbefore
  exact positive_of_foldlM hlast

/-- For every order of the sets and of the map, what is selected without fees is a candidate. -/
theorem candidate_selectProofs (hnodup : proofs.Nodup)
    (hsearch : Searching amount proofs activeKeysetIds fees →
      Searchable amount proofs activeKeysetIds fees ∧ ∀ p ∈ proofs, ∃ k, p.amount.toNat = 2 ^ k)
    (h : selectProofs order feeOrder amount proofs activeKeysetIds fees false = .ok chosen) :
    Candidate amount proofs activeKeysetIds fees chosen := by
  unfold Candidate
  by_cases hzero : amount = .zero
  · subst hzero
    have hnone : selectProofs order feeOrder .zero proofs activeKeysetIds fees false = .ok [] :=
      selectFrom_zero
    rw [if_pos rfl]
    exact Outcome.ok.inj (h.symm.trans hnone)
  · rw [if_neg hzero]
    have hpicked : Picked proofs chosen := picked_selectFrom h
    have hperm := sortDescending_perm proofs
    obtain ⟨hle, -, hcases⟩ := (selectFrom_eq_ok hzero).mp h
    split
    next hneeds =>
      rw [if_neg (Nat.not_le_of_lt hneeds)] at hcases
      obtain ⟨before, hbefore, hlast⟩ := hcases
      cases hlast
      rw [chooseProofs] at hbefore
      refine ⟨hpicked, ?_⟩
      have hspec := chosen_spec (fun hnot => ?_) (descending_sortDescending proofs)
        (hperm.nodup_iff.mpr hnodup) ((worth_perm hperm).symm ▸ hle) hzero hbefore
      · simp only [hasParts_perm hperm] at hspec
        split_ifs at hspec ⊢
        · exact ⟨fun p hp => hspec.1 p (hperm.mem_iff.mpr hp), hspec.2⟩
        · exact hspec
      · obtain ⟨hsearchable, hpower⟩ := hsearch ⟨hneeds, mt (hasParts_perm hperm).mpr hnot⟩
        exact hsearchable.sorted hnodup hpower
    next hearly =>
      rw [if_pos (Nat.le_of_not_lt hearly)] at hcases
      rw [hcases]
      exact (order.perm _).trans (inactiveProofs_perm _ hperm)

end Selected

/-! ## Fees that are paid -/

section Paid

variable (amount : Amount) (proofs : List Proof) (activeKeysetIds : List Id)
  (fees : KeysetFeeAndAmounts)

/-- The fee is not more than the selection, but with the amount more than all proofs. -/
def Refused (selected : List Proof) : Prop :=
  (feeOf fees selected).toNat ≤ worth selected ∧
    worth proofs < amount.toNat + (feeOf fees selected).toNat

/-- The proofs of active keysets are all of one keyset. -/
def OneActive : Prop :=
  ∃ id, ∀ p ∈ proofs, p.keysetId ∈ activeKeysetIds → p.keysetId = id

variable {amount proofs activeKeysetIds fees} {order feeOrder : HashOrder}
  {selected chosen : List Proof}

theorem feeOf_of_meets (h : Meets fees.keysets amount selected) :
    amount.toNat + (feeOf fees selected).toNat ≤ worth selected := by
  obtain ⟨fee, hfee, hle⟩ := h
  rw [feeOf, KeysetFeeAndAmounts.calculateFee, getProofsFee_eq_ok.mp hfee]
  exact hle

/-- A selection that covers its fee is what the selection with fees ends with. -/
theorem settled_of_meets (h : Meets fees.keysets amount selected) :
    settled feeOrder amount proofs activeKeysetIds fees selected = selected :=
  if_pos (feeOf_of_meets h)

/-- All proofs of inactive keysets are selected with the parts, and behind them the others. -/
theorem ByParts.perm_append (hnodup : proofs.Nodup) (hpicked : Picked proofs selected)
    (h : ByParts amount proofs activeKeysetIds fees selected) :
    selected.Perm (proofs.filter (fun p => p.keysetId ∉ activeKeysetIds) ++
      selected.filter fun p => p.keysetId ∈ activeKeysetIds) := by
  have hinactive : (selected.filter fun p => p.keysetId ∉ activeKeysetIds).Perm
      (proofs.filter fun p => p.keysetId ∉ activeKeysetIds) := by
    rw [List.perm_ext_iff_of_nodup (hpicked.nodup.filter _) (hnodup.filter _)]
    intro p
    simp only [List.mem_filter, decide_eq_true_eq]
    exact ⟨fun hp => ⟨hpicked.mem p hp.1, hp.2⟩, fun hp => ⟨h.1 p hp.1 hp.2, hp.2⟩⟩
  have hsplit := List.filter_append_perm (fun p : Proof => decide (p.keysetId ∈ activeKeysetIds))
    selected
  simp only [← decide_not] at hsplit
  exact hsplit.symm.trans (List.perm_append_comm.trans (hinactive.append_right _))

/-- Two selections with the parts are worth the same and have the same fee, if the proofs of active
keysets are of one keyset. -/
theorem ByParts.same (hnodup : proofs.Nodup) (hone : OneActive proofs activeKeysetIds)
    (hpicked : Picked proofs selected) (hpicked' : Picked proofs selected')
    (h : ByParts amount proofs activeKeysetIds fees selected)
    (h' : ByParts amount proofs activeKeysetIds fees selected') :
    worth selected = worth selected' ∧ ∀ fee,
      getProofsFee fees.keysets selected = .ok fee ↔
        getProofsFee fees.keysets selected' = .ok fee := by
  obtain ⟨id, hid⟩ := hone
  have hperm := h.perm_append hnodup hpicked
  have hperm' := h'.perm_append hnodup hpicked'
  have hamounts : ((selected.filter fun p => p.keysetId ∈ activeKeysetIds).map Proof.amount).Perm
      ((selected'.filter fun p => p.keysetId ∈ activeKeysetIds).map Proof.amount) :=
    h.2.trans h'.2.symm
  have hids {others : List Proof} (hothers : Picked proofs others) :
      (others.filter fun p => p.keysetId ∈ activeKeysetIds).map Proof.keysetId =
        List.replicate (others.filter fun p => p.keysetId ∈ activeKeysetIds).length id := by
    refine List.eq_replicate_iff.mpr ⟨List.length_map _, List.forall_mem_map.mpr fun p hp => ?_⟩
    obtain ⟨hp, hactive⟩ := List.mem_filter.mp hp
    exact hid p (hothers.mem p hp) (of_decide_eq_true hactive)
  constructor
  · rw [worth_perm hperm, worth_perm hperm', worth_append, worth_append]
    exact congrArg (_ + ·) (Amount.total_perm hamounts)
  · intro fee
    rw [getProofsFee_perm hperm, getProofsFee_perm hperm']
    apply getProofsFee_of_ids
    have hlength := hamounts.length_eq
    rw [List.length_map, List.length_map] at hlength
    rw [List.map_append, List.map_append, hids hpicked, hids hpicked', hlength]

end Paid

/-! ## Quotes that are covered -/

section Quotes

variable (amount : Amount) (proofs : List Proof) (activeKeysetIds : List Id)
  (fees : KeysetFeeAndAmounts) (new : List Proof)

variable {amount proofs activeKeysetIds fees new} {order feeOrder : HashOrder}
  {selected chosen : List Proof}

/-- The step for the fee adds nothing where it is paid or not looked at. -/
theorem settled_of_candidate
    (hcandidate : Candidate amount proofs activeKeysetIds fees selected)
    (hpaid : NeedsActive amount proofs activeKeysetIds → Meets fees.keysets amount selected) :
    settled feeOrder amount proofs activeKeysetIds fees selected = selected := by
  unfold Candidate at hcandidate
  split_ifs at hcandidate with hzero hneeds
  · rw [hzero, hcandidate]
    exact settled_zero
  · exact settled_of_meets (hpaid hneeds)
  · exact settled_of_meets (hpaid hneeds)
  · exact settled_of_inactive fun p hp => hcandidate.mem_iff.mpr hp

end Quotes

end Selection

end Cdk
