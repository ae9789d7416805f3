import Cdk.Backends.MeltCost
import Cdk.Wallet.SelectProofs

/-!
# Covering a melt quote

The mint melts inputs that are worth the amount, the reserve and the fee of the
inputs. What the wallet selects for the fee is only what it had left out of the
proofs of inactive keysets, and the amount that it gets for its largest proof is
smaller by the fee of that proof, and leaves out all other fees.
-/

namespace Cdk

open Lib

namespace Selection

/-! ## The check of the mint -/

/-- Inputs that are worth the amount and their own fee. -/
def Meets (keysets : Keysets) (amount : Amount) (inputs : List Proof) : Prop :=
  ∃ fee, getProofsFee keysets inputs = .ok fee ∧ amount.toNat + fee.toNat ≤ worth inputs

instance (keysets : Keysets) (amount : Amount) (inputs : List Proof) :
    Decidable (Meets keysets amount inputs) :=
  match h : getProofsFee keysets inputs with
  | .ok fee => decidable_of_iff (amount.toNat + fee.toNat ≤ worth inputs) (by simp [Meets, h])
  | .err _ => .isFalse (by simp [Meets, h])
  | .panic => .isFalse (by simp [Meets, h])

theorem meets_perm {keysets : Keysets} {amount : Amount} {inputs inputs' : List Proof}
    (h : inputs.Perm inputs') : Meets keysets amount inputs ↔ Meets keysets amount inputs' := by
  unfold Meets
  simp only [getProofsFee_perm h, worth_perm h]

/-- The mint melts no inputs that do not meet the quote. -/
theorem meets_of_verifyMeltQuote {env : Env} {keysets : Keysets} {now : Nat} {input : Verification}
    {request : MeltRequest} {quote : MeltQuote} {amount : Amount} {db db' : Db}
    (hamount : amount.toNat = quote.amount.toNat + quote.feeReserve.toNat)
    (hinput : verifyInputs env keysets now request.inputs = .ok input)
    (h : verifyMeltQuote env keysets input request db = .ok (quote, db')) :
    Meets keysets amount request.inputs := by
  obtain ⟨fee, hfee, hle⟩ := verifyMeltQuote_covers h
  obtain ⟨hworth, -⟩ := verifyInputs_eq_ok hinput
  refine ⟨fee, hfee, ?_⟩
  change _ ≤ Amount.total (request.inputs.map Proof.amount)
  omega

/-! ## Selecting for the fee -/

section IncludeFees

variable (feeOrder : HashOrder) (amount : Amount) (proofs : List Proof) (activeKeysetIds : List Id)
  (fees : KeysetFeeAndAmounts) (chosen : List Proof)

/-- The fee that `include_fees` works with. -/
def feeOf : Amount := (fees.calculateFee chosen).getD .zero

/-- The proofs of inactive keysets that have not been chosen. -/
def leftOut : List Proof :=
  inactiveProofs activeKeysetIds
    (sortDescending ((sortDescending proofs).filter fun p => p ∉ chosen))

/-- The selection after the fees. -/
def settled : List Proof :=
  if amount.toNat + (feeOf fees chosen).toNat ≤ worth chosen then chosen
  else chosen ++ feeOrder.visit (leftOut proofs activeKeysetIds chosen)

/-- The call ends with a selection: the proofs of inactive keysets are enough, or the fee neither
exceeds what has been chosen nor, with the amount, what there is. -/
def Settles : Prop :=
  amount.toNat ≤ worth (inactiveProofs activeKeysetIds proofs) ∨
    (feeOf fees chosen).toNat ≤ worth chosen ∧
      amount.toNat + (feeOf fees chosen).toNat ≤ worth proofs

variable {feeOrder amount proofs activeKeysetIds fees chosen} {selected : List Proof}

theorem includeFees_eq_ok (hnodup : proofs.Nodup) (hlt : worth proofs < 2 ^ 64)
    (hchosen : Picked proofs chosen) :
    includeFees feeOrder amount (sortDescending proofs) chosen activeKeysetIds fees =
        .ok selected ↔
      (feeOf fees chosen).toNat ≤ worth chosen ∧
        amount.toNat + (feeOf fees chosen).toNat ≤ worth proofs ∧
        selected = settled feeOrder amount proofs activeKeysetIds fees chosen := by
  have hsorted := sortDescending_perm proofs
  have hsum := (hchosen.of_perm hsorted.symm).worth_add (hsorted.nodup_iff.mpr hnodup)
  rw [worth_perm hsorted] at hsum
  have hlack {a : Amount} (ha : 0 < a.toNat) : a ≠ .zero := by
    rintro rfl
    exact absurd ha (by decide)
  simp only [includeFees, Outcome.bind_eq_ok, totalAmount_eq_ok, Amount.sub, Outcome.expect_eq_ok,
    Amount.checkedSub_eq_some, Amount.le_def]
  change (∃ total : Amount, total.toNat = worth chosen ∧ ∃ net : Amount,
    net.toNat + (feeOf fees chosen).toNat = total.toNat ∧ _) ↔ _
  constructor
  · rintro ⟨total, htotal, net, hnet, h⟩
    by_cases hcovered : amount.toNat ≤ net.toNat
    · rw [if_pos hcovered] at h
      cases h
      exact ⟨by omega, by omega, (if_pos (by omega)).symm⟩
    · rw [if_neg hcovered] at h
      simp only [Outcome.bind_eq_ok, Outcome.expect_eq_ok, Amount.checkedSub_eq_some] at h
      obtain ⟨remaining, hremaining, more, hmore, h⟩ := h
      obtain ⟨hle, -, rfl⟩ := (selectFrom_empty (hlack (by omega))).mp hmore
      cases h
      exact ⟨by omega, by omega, (if_neg (by omega)).symm⟩
  · rintro ⟨hfee, hsuffices, rfl⟩
    let net : Amount := ⟨worth chosen - (feeOf fees chosen).toNat, by omega⟩
    have hnet : net.toNat + (feeOf fees chosen).toNat = worth chosen := Nat.sub_add_cancel hfee
    refine ⟨⟨worth chosen, by omega⟩, rfl, net, hnet, ?_⟩
    by_cases hcovered : amount.toNat ≤ net.toNat
    · rw [if_pos hcovered, settled, if_pos (by omega)]
    · rw [if_neg hcovered, settled, if_neg (by omega)]
      simp only [Outcome.bind_eq_ok, Outcome.expect_eq_ok, Amount.checkedSub_eq_some]
      let remaining : Amount := ⟨amount.toNat - net.toNat, by have := amount.isLt; omega⟩
      have hremaining : remaining.toNat + net.toNat = amount.toNat :=
        Nat.sub_add_cancel (Nat.le_of_not_le hcovered)
      refine ⟨remaining, hremaining, feeOrder.visit (leftOut proofs activeKeysetIds chosen), ?_,
        rfl⟩
      exact (selectFrom_empty (hlack (by omega))).mpr ⟨by omega, by omega, rfl⟩

theorem settled_of_inactive (h : ∀ p ∈ inactiveProofs activeKeysetIds proofs, p ∈ chosen) :
    settled feeOrder amount proofs activeKeysetIds fees chosen = chosen := by
  have hnone : leftOut proofs activeKeysetIds chosen = [] := by
    rw [leftOut, inactiveProofs, List.dedup_eq_nil, List.filter_eq_nil_iff]
    intro p hp hinactive
    obtain ⟨hp, hleft⟩ := List.mem_filter.mp ((sortDescending_perm _).mem_iff.mp hp)
    have hmem : p ∈ inactiveProofs activeKeysetIds proofs :=
      List.mem_dedup.mpr (List.mem_filter.mpr ⟨(sortDescending_perm _).mem_iff.mp hp, hinactive⟩)
    exact of_decide_eq_true hleft (h p hmem)
  unfold settled
  split
  · rfl
  · rw [hnone, (feeOrder.perm []).eq_nil, List.append_nil]

theorem settled_zero : settled feeOrder .zero proofs activeKeysetIds fees [] = [] :=
  if_pos (Nat.le_refl 0)

/-- The fees add to what is chosen without them. -/
theorem selectProofs_eq_ok {order : HashOrder} (hnodup : proofs.Nodup) :
    selectProofs order feeOrder amount proofs activeKeysetIds fees true = .ok selected ↔
      ∃ chosen, selectProofs order feeOrder amount proofs activeKeysetIds fees false = .ok chosen ∧
        Settles amount proofs activeKeysetIds fees chosen ∧
        selected = settled feeOrder amount proofs activeKeysetIds fees chosen := by
  unfold selectProofs
  by_cases hzero : amount = .zero
  · subst hzero
    rw [selectFrom_zero, selectFrom_zero]
    constructor
    · intro h
      cases h
      exact ⟨[], rfl, .inl (Nat.zero_le _), settled_zero.symm⟩
    · rintro ⟨chosen, h, -, rfl⟩
      cases h
      rw [settled_zero]
  · have hinactive := (Picked.inactiveProofs activeKeysetIds (sortDescending proofs))
    rw [selectFrom_eq_ok hzero]
    simp only [selectFrom_eq_ok hzero]
    by_cases hearly : amount.toNat ≤ worth (inactiveProofs activeKeysetIds proofs)
    · simp only [if_pos hearly]
      have hall : settled feeOrder amount proofs activeKeysetIds fees
          (order.visit (inactiveProofs activeKeysetIds (sortDescending proofs))) =
            order.visit (inactiveProofs activeKeysetIds (sortDescending proofs)) := by
        apply settled_of_inactive
        intro p hp
        rw [(order.perm _).mem_iff]
        exact (inactiveProofs_perm _ (sortDescending_perm proofs)).mem_iff.mpr hp
      constructor
      · rintro ⟨hle, hlt, rfl⟩
        exact ⟨_, ⟨hle, hlt, rfl⟩, .inl hearly, hall.symm⟩
      · rintro ⟨chosen, ⟨hle, hlt, rfl⟩, -, rfl⟩
        exact ⟨hle, hlt, hall⟩
    · simp only [if_neg hearly, Bool.false_eq_true, if_false, if_true]
      constructor
      · rintro ⟨hle, hlt, before, hbefore, h⟩
        have hpicked := (hinactive.chooseProofs hbefore).of_perm (sortDescending_perm proofs)
        obtain ⟨hfee, hsuffices, rfl⟩ := (includeFees_eq_ok hnodup hlt hpicked).mp h
        exact ⟨before, ⟨hle, hlt, before, hbefore, rfl⟩, .inr ⟨hfee, hsuffices⟩, rfl⟩
      · rintro ⟨chosen, ⟨hle, hlt, before, hbefore, h⟩, hsettles, rfl⟩
        cases h
        have hpicked := (hinactive.chooseProofs hbefore).of_perm (sortDescending_perm proofs)
        obtain ⟨hfee, hsuffices⟩ := hsettles.resolve_left hearly
        refine ⟨hle, hlt, _, hbefore, ?_⟩
        exact (includeFees_eq_ok hnodup hlt hpicked).mpr ⟨hfee, hsuffices, rfl⟩

end IncludeFees

/-! ## Giving up the largest proof -/

section Exchange

variable (fees : KeysetFeeAndAmounts) (amount : Amount)

/-- The result of a selection covers the amount: what is kept meets it, and where a proof is given
up, the swap can be balanced and what is kept meets the amount together with new proofs that are
worth what the swap gives. -/
def Covers (new : List Proof) : List Proof × Option (Proof × Amount) → Prop
  | (rest, none) => Meets fees.keysets amount rest
  | (rest, some (p, exact)) =>
      p ∉ rest ∧
        (∃ fee, getProofsFee fees.keysets [p] = .ok fee ∧
          exact.toNat + fee.toNat ≤ p.amount.toNat) ∧
        (worth new = exact.toNat → Meets fees.keysets amount (rest ++ new))

/-- The largest of the selected proofs is offered for a swap, as the selection is worth more than
the amount, but the others are not, also with the fee per thousand of the largest. -/
structure Offers (selected rest : List Proof) (p : Proof) : Prop where
  sorted : sortAscending selected = rest ++ [p]
  exceeds : amount.toNat < worth selected
  others : worth rest + (fees.feePpk p.keysetId).toNat ≤ amount.toNat

/-- A selection from which nothing is offered meets the amount, and one from which a proof is
offered is spent without a fee, before and after the swap. -/
structure Fits (new selected : List Proof) : Prop where
  kept : (∀ rest p, ¬ Offers fees amount selected rest p) → Meets fees.keysets amount selected
  offered : ∀ rest p, Offers fees amount selected rest p →
    worth rest + (fees.feePpk p.keysetId).toNat + worth new = amount.toNat →
      (fees.feePpk p.keysetId).toNat = 0 ∧
        getProofsFee fees.keysets (rest ++ new) = .ok .zero

variable {fees amount} {proofs selected rest new : List Proof} {p : Proof}

theorem last_unique {rest' : List Proof} {p' : Proof} (h : rest ++ [p] = rest' ++ [p']) :
    rest = rest' ∧ p = p' := by
  obtain ⟨hrest, hp⟩ := List.append_inj' h rfl
  exact ⟨hrest, List.singleton_inj.mp hp⟩

theorem worth_of_sorted (h : sortAscending selected = rest ++ [p]) :
    worth selected = worth rest + p.amount.toNat := by
  rw [← worth_perm (sortAscending_perm selected), h, worth_append, worth_cons, worth_nil,
    Nat.add_zero]

theorem exactAmount_eq_some {total exact : Amount} (htotal : total.toNat = worth selected)
    (h : sortAscending selected = rest ++ [p]) :
    exactAmount fees amount total p = some exact ↔
      exact.toNat + (worth rest + (fees.feePpk p.keysetId).toNat) = amount.toNat := by
  have hworth := worth_of_sorted h
  simp only [exactAmount, Option.bind_eq_bind, Option.bind_eq_some_iff, Amount.checkedSub_eq_some,
    Amount.checkedAdd_eq_some]
  constructor
  · rintro ⟨a, ha, b, hb, hexact⟩
    omega
  · intro hexact
    have hlt := amount.isLt
    refine ⟨⟨worth rest, by omega⟩, ?_,
      ⟨worth rest + (fees.feePpk p.keysetId).toNat, by omega⟩, rfl, hexact⟩
    change worth rest + p.amount.toNat = total.toNat
    omega

/-- The swap of an offered proof can be balanced. -/
theorem Offers.balanced {exact : Amount} (h : Offers fees amount selected rest p)
    (hexact : exact.toNat + (worth rest + (fees.feePpk p.keysetId).toNat) = amount.toNat)
    (hpower : ∃ k, p.amount.toNat = 2 ^ k) (hknown : (fees.get p.keysetId).isSome = true) :
    ∃ fee, getProofsFee fees.keysets [p] = .ok fee ∧ exact.toNat + fee.toNat ≤ p.amount.toNat := by
  have hworth := worth_of_sorted h.sorted
  have hexceeds := h.exceeds
  have hinfo := fees.info_keysets p.keysetId
  obtain ⟨feeAndAmounts, hget⟩ := Option.isSome_iff_exists.mp hknown
  rw [hget, Option.map_some] at hinfo
  obtain ⟨keyset, hkeyset, -⟩ := Option.map_eq_some_iff.mp hinfo
  have hppk := fees.feePpk_eq hkeyset
  -- the largest power of two leaves room for rounding up the fee
  have hhalf : p.amount.toNat ≤ 2 ^ 63 := by
    obtain ⟨k, hk⟩ := hpower
    have hk64 : k < 64 := (Nat.pow_lt_pow_iff_right (by decide)).mp (hk ▸ p.amount.isLt)
    rw [hk]
    exact Nat.pow_le_pow_right (by decide) (Nat.le_of_lt_succ hk64)
  obtain ⟨fee, hfee, hvalue⟩ := getProofsFee_singleton hkeyset (by omega)
  exact ⟨fee, hfee, by omega⟩

/-- With the exact amount for the largest proof, the amount is met only if no fee is charged. -/
theorem meets_exchanged_iff
    (hnew : worth rest + (fees.feePpk p.keysetId).toNat + worth new = amount.toNat) :
    Meets fees.keysets amount (rest ++ new) ↔ (fees.feePpk p.keysetId).toNat = 0 ∧
      getProofsFee fees.keysets (rest ++ new) = .ok .zero := by
  constructor
  · rintro ⟨fee, hfee, hle⟩
    rw [worth_append] at hle
    have hzero : fee = .zero := Amount.ext_toNat (by change fee.toNat = 0; omega)
    exact ⟨by omega, hzero ▸ hfee⟩
  · rintro ⟨hppk, hfee⟩
    refine ⟨.zero, hfee, ?_⟩
    change amount.toNat + 0 ≤ _
    rw [worth_append]
    omega

theorem Offers.exists_exact {total : Amount} (h : Offers fees amount selected rest p)
    (htotal : total.toNat = worth selected) :
    ∃ exact, exactAmount fees amount total p = some exact := by
  have hlt := amount.isLt
  refine ⟨⟨amount.toNat - (worth rest + (fees.feePpk p.keysetId).toNat), by omega⟩, ?_⟩
  exact (exactAmount_eq_some htotal h.sorted).mpr (Nat.sub_add_cancel h.others)

/-- Giving up the largest proof covers the amount exactly for a selection that fits. -/
theorem covers_exchangeLargest (hlt : worth selected < 2 ^ 64) (hnodup : selected.Nodup)
    (hpower : ∀ p ∈ selected, ∃ k, p.amount.toNat = 2 ^ k)
    (hknown : ∀ p ∈ selected, (fees.get p.keysetId).isSome = true) :
    Covers fees amount new (exchangeLargest fees amount selected) ↔
      Fits fees amount new selected := by
  let total : Amount := ⟨worth selected, hlt⟩
  have htotal : totalAmount selected = .ok total := totalAmount_eq_ok.mpr rfl
  have hperm := sortAscending_perm selected
  unfold exchangeLargest
  rw [htotal]
  dsimp only [Outcome.getD]
  by_cases hexceeds : amount < total
  · rw [if_pos hexceeds]
    obtain ⟨rest, p, hsorted⟩ : ∃ rest p, sortAscending selected = rest ++ [p] := by
      rcases List.eq_nil_or_concat' (sortAscending selected) with hnil | hsome
      · rw [hnil] at hperm
        change amount.toNat < worth selected at hexceeds
        rw [← hperm.nil_eq] at hexceeds
        exact absurd hexceeds (Nat.not_lt_zero _)
      · exact hsome
    have hmem : p ∈ selected := hperm.mem_iff.mp (by simp [hsorted])
    have hrest : p ∉ rest := by
      have hnodup := hperm.nodup_iff.mpr hnodup
      rw [hsorted, List.nodup_append] at hnodup
      exact fun hp => hnodup.2.2 p hp p (List.mem_singleton_self p) rfl
    simp only [hsorted, List.getLast?_concat, List.dropLast_concat]
    cases hexact : exactAmount fees amount total p with
    | some exact =>
        have hvalue := (exactAmount_eq_some rfl hsorted).mp hexact
        have hoffers : Offers fees amount selected rest p := ⟨hsorted, hexceeds, by omega⟩
        constructor
        · rintro ⟨-, -, hmeets⟩
          refine ⟨fun hnone => absurd hoffers (hnone rest p), ?_⟩
          intro rest' p' hoffers' hnew
          obtain ⟨rfl, rfl⟩ := last_unique (hsorted.symm.trans hoffers'.sorted)
          exact (meets_exchanged_iff hnew).mp (hmeets (by omega))
        · intro hfits
          refine ⟨hrest, hoffers.balanced hvalue (hpower p hmem) (hknown p hmem), fun hnew => ?_⟩
          exact (meets_exchanged_iff (by omega)).mpr (hfits.offered rest p hoffers (by omega))
    | none =>
        have hnone : ∀ rest p, ¬ Offers fees amount selected rest p := by
          intro rest' p' hoffers
          obtain ⟨rfl, rfl⟩ := last_unique (hsorted.symm.trans hoffers.sorted)
          have hworth : total.toNat = worth selected := rfl
          obtain ⟨exact, hsome⟩ := hoffers.exists_exact hworth
          cases hexact.symm.trans hsome
        have hkept : Covers fees amount new (rest ++ [p], none) ↔
            Meets fees.keysets amount selected :=
          meets_perm (hsorted ▸ hperm)
        rw [hkept]
        exact ⟨fun h => ⟨fun _ => h, fun rest p ho => absurd ho (hnone rest p)⟩,
          fun h => h.kept hnone⟩
  · rw [if_neg hexceeds]
    have hnone : ∀ rest p, ¬ Offers fees amount selected rest p := fun _ _ h => hexceeds h.exceeds
    exact ⟨fun h => ⟨fun _ => h, fun rest p ho => absurd ho (hnone rest p)⟩, fun h => h.kept hnone⟩

end Exchange

/-! ## Covering a quote -/

section Covering

variable {order feeOrder : HashOrder} {amount : Amount} {proofs chosen : List Proof}
  {activeKeysetIds : List Id} {fees : KeysetFeeAndAmounts}

theorem Picked.settled (h : Picked proofs chosen) :
    Picked proofs (settled feeOrder amount proofs activeKeysetIds fees chosen) := by
  unfold Selection.settled
  split
  · exact h
  · have hleft : Picked ((sortDescending proofs).filter fun p => p ∉ chosen)
        (feeOrder.visit (leftOut proofs activeKeysetIds chosen)) :=
      ((Picked.inactiveProofs activeKeysetIds _).perm (feeOrder.perm _)).of_perm
        (sortDescending_perm _)
    constructor
    · apply h.nodup.append hleft.nodup
      intro _ hp hother
      exact of_decide_eq_true (List.mem_filter.mp (hleft.mem _ hother)).2 hp
    · intro p hp
      rcases List.mem_append.mp hp with hp | hp
      · exact h.mem p hp
      · exact (sortDescending_perm proofs).mem_iff.mp (List.mem_filter.mp (hleft.mem p hp)).1

/-- What has been selected is worth an amount. -/
theorem worth_settled_lt (hnodup : proofs.Nodup)
    (h : selectProofs order feeOrder amount proofs activeKeysetIds fees false = .ok chosen) :
    worth (settled feeOrder amount proofs activeKeysetIds fees chosen) < 2 ^ 64 := by
  unfold selectProofs at h
  by_cases hzero : amount = .zero
  · subst hzero
    rw [selectFrom_zero] at h
    cases h
    rw [settled_zero]
    decide
  · obtain ⟨-, hlt, -⟩ := (selectFrom_eq_ok hzero).mp h
    have hpicked : Picked proofs (settled feeOrder amount proofs activeKeysetIds fees chosen) :=
      (picked_selectFrom h).settled
    have hsum := hpicked.worth_add hnodup
    omega

theorem covers_settled {new : List Proof} (hnodup : proofs.Nodup)
    (hpower : ∀ p ∈ proofs, ∃ k, p.amount.toNat = 2 ^ k)
    (hknown : ∀ p ∈ proofs, (fees.get p.keysetId).isSome = true)
    (h : selectProofs order feeOrder amount proofs activeKeysetIds fees false = .ok chosen) :
    Covers fees amount new (exchangeLargest fees amount
        (settled feeOrder amount proofs activeKeysetIds fees chosen)) ↔
      Fits fees amount new (settled feeOrder amount proofs activeKeysetIds fees chosen) := by
  have hpicked : Picked proofs (settled feeOrder amount proofs activeKeysetIds fees chosen) :=
    (picked_selectFrom h).settled
  exact covers_exchangeLargest (worth_settled_lt hnodup h) hpicked.nodup
    (fun p hp => hpower p (hpicked.mem p hp)) (fun p hp => hknown p (hpicked.mem p hp))

end Covering

/-! ### A keyset with a fee -/

/-- Sets that are visited in the order of insertion. -/
def insertionOrder : HashOrder := ⟨id, List.Perm.refl⟩

/-- The keyset of the samples, with a fee of a tenth for each proof. -/
def feeMap : KeysetFeeAndAmounts where
  entries := ⟨[(.v1 1, ⟨100, [1, 2, 4, 8]⟩)], List.nodup_singleton _⟩
  fee_lt := by
    rintro entry hentry
    obtain rfl := List.mem_singleton.mp hentry
    decide

end Selection

end Cdk
