import Cdk.Wallet.ExactSplits

/-!
# Splitting with the fee of the parts

An amount that is to arrive after its parts have been spent is split together
with the fee of the parts. The fee is taken from the parts of the amount alone,
and the parts of the sum may be more, so the split tries one amount after the
other until the parts pay for themselves.
-/

namespace Cdk

open Lib

namespace Counters

/-! ## The split -/

/-- `Amount::checked_mul`. -/
def checkedMul (a b : Nat) : Option Amount := Amount.ofNat? (a * b)

/-- `u64::div_ceil` by a thousand. -/
def divCeil1000 (a : Amount) : Amount := ⟨(a.toNat + 999) / 1000, by have := a.isLt; omega⟩

/-- `Amount::split_with_fee` up to its recursive call, with no parts where it makes one. -/
def splitOnce (amount : Amount) (feeAndAmounts : FeeAndAmounts) :
    Outcome Error (Option (List Amount)) := do
  let withoutFeeAmounts ← amount.split feeAndAmounts.amounts
  let totalFeePpk ← Outcome.ofOption .amountOverflow
    (checkedMul feeAndAmounts.fee withoutFeeAmounts.length)
  let fee := divCeil1000 totalFeePpk
  let newAmount ← Outcome.ofOption .amountOverflow (amount.checkedAdd fee)
  let split ← newAmount.split feeAndAmounts.amounts
  let splitFeePpk ← Outcome.ofOption .amountOverflow (checkedMul split.length feeAndAmounts.fee)
  let splitFee := divCeil1000 splitFeePpk
  match newAmount.checkedSub splitFee with
  | some netAmount => .ok (if amount ≤ netAmount then some split else none)
  | none => .ok none

/-- `Amount::split_with_fee`. -/
def splitWithFee (amount : Amount) (feeAndAmounts : FeeAndAmounts) : Outcome Error (List Amount) :=
  match splitOnce amount feeAndAmounts with
  | .ok (some split) => .ok split
  | .ok none =>
      match _h : amount.checkedAdd .one with
      | some next => splitWithFee next feeAndAmounts
      | none => .err .amountOverflow
  | .err e => .err e
  | .panic => .panic
termination_by 2 ^ 64 - amount.toNat
decreasing_by
  have hnext : next.toNat = amount.toNat + 1 := Amount.checkedAdd_eq_some.mp _h
  have := next.isLt
  omega

/-! ## One round -/

section Rounds

variable {denominations : List Amount} {fee : Nat} {amount : Amount}

/-- The number of parts of an amount. -/
def partCount (denominations : List Amount) (amount : Nat) : Nat :=
  (splitParts denominations.reverse amount).length

/-- The fee of a number of parts, rounded up. -/
def partsFee (fee count : Nat) : Nat := (fee * count + 999) / 1000

/-- What an amount and the fee of its parts add up to. -/
def withFee (denominations : List Amount) (fee amount : Nat) : Nat :=
  amount + partsFee fee (partCount denominations amount)

/-- A sum or a product of the round that starts with an amount is not an amount. -/
def Overflows (denominations : List Amount) (fee amount : Nat) : Prop :=
  2 ^ 64 ≤ fee * partCount denominations amount ∨ 2 ^ 64 ≤ withFee denominations fee amount ∨
    2 ^ 64 ≤ partCount denominations (withFee denominations fee amount) * fee

/-- The parts of the amount and the fee pay for themselves. -/
def Pays (denominations : List Amount) (fee amount : Nat) : Prop :=
  amount + partsFee fee (partCount denominations (withFee denominations fee amount)) ≤
    withFee denominations fee amount

/-- Without an overflow a round ends with the parts of the sum, if they pay for themselves. -/
theorem splitOnce_ok (hpowers : PowersBelow 64 denominations)
    (hfits : ¬ Overflows denominations fee amount.toNat) :
    (Pays denominations fee amount.toNat ∧
        splitOnce amount ⟨fee, denominations⟩ =
          .ok (some (splitParts denominations.reverse (withFee denominations fee amount.toNat))) ∧
        withFee denominations fee amount.toNat < 2 ^ 64) ∨
      (¬ Pays denominations fee amount.toNat ∧
        splitOnce amount ⟨fee, denominations⟩ = .ok none) := by
  simp only [Overflows, not_or, Nat.not_le] at hfits
  obtain ⟨hfee, hsum, hsplit⟩ := hfits
  let newAmount : Amount := ⟨withFee denominations fee amount.toNat, hsum⟩
  have hfirst : checkedMul fee (splitParts denominations.reverse amount.toNat).length =
      some ⟨_, hfee⟩ := dif_pos hfee
  have hnew : amount.checkedAdd (divCeil1000 ⟨_, hfee⟩) = some newAmount :=
    Amount.checkedAdd_eq_some.mpr rfl
  have hsecond : checkedMul (splitParts denominations.reverse newAmount.toNat).length fee =
      some ⟨_, hsplit⟩ := dif_pos hsplit
  have hsplitFee : (divCeil1000 ⟨_, hsplit⟩).toNat =
      partsFee fee (partCount denominations newAmount.toNat) := by
    change (partCount denominations newAmount.toNat * fee + 999) / 1000 = _
    rw [partsFee, Nat.mul_comm]
  have hround : splitOnce amount ⟨fee, denominations⟩ =
      match newAmount.checkedSub (divCeil1000 ⟨_, hsplit⟩) with
      | some netAmount => .ok (if amount ≤ netAmount then
          some (splitParts denominations.reverse newAmount.toNat) else none)
      | none => .ok none := by
    simp only [splitOnce, hpowers.split_eq, Outcome.bind_ok, hfirst, Outcome.ofOption_some, hnew,
      hsecond]
  by_cases hpays : Pays denominations fee amount.toNat
  · have hpaid : amount.toNat + (divCeil1000 ⟨_, hsplit⟩).toNat ≤ newAmount.toNat := by
      rw [hsplitFee]
      exact hpays
    let net : Amount := ⟨newAmount.toNat - (divCeil1000 ⟨_, hsplit⟩).toNat,
      (Nat.sub_le _ _).trans_lt newAmount.isLt⟩
    have hnet : newAmount.checkedSub (divCeil1000 ⟨_, hsplit⟩) = some net :=
      Amount.checkedSub_eq_some.mpr (Nat.sub_add_cancel (by omega))
    have hamount : amount ≤ net := Nat.le_sub_of_add_le hpaid
    rw [hnet] at hround
    exact .inl ⟨hpays, hround.trans (congrArg Outcome.ok (if_pos hamount)), hsum⟩
  · refine .inr ⟨hpays, ?_⟩
    cases hnet : newAmount.checkedSub (divCeil1000 ⟨_, hsplit⟩) with
    | none =>
        rw [hnet] at hround
        exact hround
    | some net =>
        have hsub := Amount.checkedSub_eq_some.mp hnet
        have hless : ¬ amount ≤ net := by
          intro hle
          have hle : amount.toNat ≤ net.toNat := hle
          apply hpays
          change amount.toNat + partsFee fee (partCount denominations newAmount.toNat) ≤
            newAmount.toNat
          omega
        rw [hnet] at hround
        exact hround.trans (congrArg Outcome.ok (if_neg hless))

/-- An overflow ends a round with an error. -/
theorem splitOnce_overflow (hpowers : PowersBelow 64 denominations)
    (hover : Overflows denominations fee amount.toNat) :
    splitOnce amount ⟨fee, denominations⟩ = .err .amountOverflow := by
  by_cases hfee : fee * partCount denominations amount.toNat < 2 ^ 64
  · have hfirst : checkedMul fee (splitParts denominations.reverse amount.toNat).length =
        some ⟨_, hfee⟩ := dif_pos hfee
    by_cases hsum : withFee denominations fee amount.toNat < 2 ^ 64
    · let newAmount : Amount := ⟨withFee denominations fee amount.toNat, hsum⟩
      have hnew : amount.checkedAdd (divCeil1000 ⟨_, hfee⟩) = some newAmount :=
        Amount.checkedAdd_eq_some.mpr rfl
      have hsecond : checkedMul (splitParts denominations.reverse newAmount.toNat).length fee =
          none := by
        refine dif_neg fun hlt => ?_
        rcases hover with hover | hover | hover
        · exact absurd hfee (Nat.not_lt_of_le hover)
        · exact absurd hsum (Nat.not_lt_of_le hover)
        · exact absurd hlt (Nat.not_lt_of_le hover)
      simp only [splitOnce, hpowers.split_eq, Outcome.bind_ok, hfirst, Outcome.ofOption_some, hnew,
        hsecond]
      rfl
    · have hnone : amount.checkedAdd (divCeil1000 ⟨_, hfee⟩) = none := dif_neg hsum
      simp only [splitOnce, hpowers.split_eq, Outcome.bind_ok, hfirst, Outcome.ofOption_some, hnone]
      rfl
  · have hfirst : checkedMul fee (splitParts denominations.reverse amount.toNat).length = none :=
      dif_neg hfee
    simp only [splitOnce, hpowers.split_eq, Outcome.bind_ok, hfirst]
    rfl

end Rounds

/-! ## All rounds -/

section Runs

variable {denominations : List Amount} {fee : Nat} {amount next : Amount} {parts : List Amount}
  {feeAndAmounts : FeeAndAmounts}

theorem splitWithFee_of_some (h : splitOnce amount feeAndAmounts = .ok (some parts)) :
    splitWithFee amount feeAndAmounts = .ok parts := by
  rw [splitWithFee, h]

theorem splitWithFee_of_err {e : Error} (h : splitOnce amount feeAndAmounts = .err e) :
    splitWithFee amount feeAndAmounts = .err e := by
  rw [splitWithFee, h]

theorem splitWithFee_of_none (h : splitOnce amount feeAndAmounts = .ok none)
    (hnext : amount.checkedAdd .one = some next) :
    splitWithFee amount feeAndAmounts = splitWithFee next feeAndAmounts := by
  rw [splitWithFee, h]
  dsimp only
  split
  next hsome =>
    cases hsome.symm.trans hnext
    rfl
  next hnone => cases hnone.symm.trans hnext

theorem splitWithFee_last (h : splitOnce amount feeAndAmounts = .ok none)
    (hnone : amount.checkedAdd .one = none) :
    splitWithFee amount feeAndAmounts = .err .amountOverflow := by
  rw [splitWithFee, h]
  dsimp only
  split
  next hsome => cases hsome.symm.trans hnone
  next => rfl

variable (denominations fee amount)

/-- An amount whose round is reached, as all rounds before it have ended without parts. -/
structure Tried (tried : Amount) : Prop where
  le : amount ≤ tried
  before : ∀ a : Amount, amount ≤ a → a < tried →
    splitOnce a ⟨fee, denominations⟩ = .ok none

/-- Parts that are denominations and are worth the amount and their own fee, or an error as a sum or
a product of a round is not an amount. -/
def PaidFor : Outcome Error (List Amount) → Prop
  | .ok parts => (∀ part ∈ parts, part ∈ denominations) ∧
      amount.toNat + partsFee fee parts.length ≤ Amount.total parts
  | .err e => e = .amountOverflow ∧ ∃ tried, Tried denominations fee amount tried ∧
      (Overflows denominations fee tried.toNat ∨ 2 ^ 64 ≤ tried.toNat + 1)
  | .panic => False

variable {denominations fee amount}

theorem tried_self : Tried denominations fee amount amount where
  le := Nat.le_refl _
  before _ hle hlt := absurd hlt (Nat.not_lt_of_le hle)

/-- What holds for the next amount holds for an amount whose round ends without parts. -/
theorem PaidFor.previous {result : Outcome Error (List Amount)}
    (hround : splitOnce amount ⟨fee, denominations⟩ = .ok none)
    (hnext : next.toNat = amount.toNat + 1) (h : PaidFor denominations fee next result) :
    PaidFor denominations fee amount result := by
  cases result with
  | ok parts =>
      obtain ⟨hmem, hpaid⟩ := h
      exact ⟨hmem, by omega⟩
  | err e =>
      obtain ⟨he, tried, htried, hover⟩ := h
      have hle : next.toNat ≤ tried.toNat := htried.le
      refine ⟨he, tried, ⟨?_, fun a ha hlt => ?_⟩, hover⟩
      · change amount.toNat ≤ tried.toNat
        omega
      · rcases Nat.eq_or_lt_of_le ha with heq | hless
        · rw [← Amount.ext_toNat heq]
          exact hround
        · refine htried.before a ?_ hlt
          change next.toNat ≤ a.toNat
          omega
  | panic => exact h

theorem paidFor_splitWithFee (hpowers : PowersBelow 64 denominations) (amount : Amount) :
    PaidFor denominations fee amount (splitWithFee amount ⟨fee, denominations⟩) := by
  by_cases hover : Overflows denominations fee amount.toNat
  · rw [splitWithFee_of_err (splitOnce_overflow hpowers hover)]
    exact ⟨rfl, amount, tried_self, .inl hover⟩
  · rcases splitOnce_ok hpowers hover with ⟨hpays, hround, hlt⟩ | ⟨-, hround⟩
    · rw [splitWithFee_of_some hround]
      have htotal := hpowers.total_split_amount ⟨withFee denominations fee amount.toNat, hlt⟩
      refine ⟨fun part hpart => (hpowers.mem_split hpart).1, ?_⟩
      rw [htotal]
      exact hpays
    · cases hnext : amount.checkedAdd .one with
      | none =>
          rw [splitWithFee_last hround hnext]
          refine ⟨rfl, amount, tried_self, .inr ?_⟩
          by_contra hlt
          have hsome : amount.checkedAdd .one = some ⟨amount.toNat + 1, Nat.lt_of_not_le hlt⟩ :=
            Amount.checkedAdd_eq_some.mpr rfl
          cases hnext.symm.trans hsome
      | some next =>
          have hsum : next.toNat = amount.toNat + 1 := Amount.checkedAdd_eq_some.mp hnext
          rw [splitWithFee_of_none hround hnext]
          exact (paidFor_splitWithFee hpowers next).previous hround hsum
termination_by 2 ^ 64 - amount.toNat
decreasing_by
  have := next.isLt
  omega

/-! ### Low fees -/

theorem partCount_le (hpowers : PowersBelow 64 denominations) (n : Nat) :
    partCount denominations n ≤ 64 := by
  have hlength := congrArg List.length hpowers
  rw [List.length_map, List.length_map, List.length_range] at hlength
  have hle := (splitParts_sublist denominations.reverse n).length_le
  rw [List.length_reverse, hlength] at hle
  exact hle

/-- There is only one list of the powers of two. -/
theorem eq_powers (hpowers : PowersBelow 64 denominations) : denominations = powers 64 := by
  have hinjective : Function.Injective Amount.toNat := fun _ _ h => Amount.ext_toNat h
  apply List.map_injective_iff.mpr hinjective
  exact hpowers.trans (powersBelow_powers (Nat.le_refl _)).symm

/-- The fee of a part is below one, so no round overflows. -/
theorem not_overflows (hpowers : PowersBelow 64 denominations) (hfee : fee < 1000) {n : Nat}
    (hn : n < 2 ^ 62) : ¬ Overflows denominations fee n := by
  have hmul {count : Nat} (hcount : count ≤ 64) : fee * count ≤ 999 * 64 :=
    Nat.mul_le_mul (Nat.le_of_lt_succ hfee) hcount
  have hfirst := hmul (partCount_le hpowers n)
  have hsecond := hmul (partCount_le hpowers (withFee denominations fee n))
  rw [Nat.mul_comm] at hsecond
  have hsum : withFee denominations fee n < 2 ^ 64 := by
    unfold withFee partsFee
    omega
  rintro (hover | hover | hover)
  · omega
  · omega
  · omega

/-- The largest amount has 62 parts, and no more with the fee for them. -/
theorem pays_large (hpowers : PowersBelow 64 denominations) (hfee : fee < 1000) :
    Pays denominations fee (2 ^ 62 - 1) := by
  rw [eq_powers hpowers]
  have hcount : partCount (powers 64) (2 ^ 62 - 1) = 62 := by decide +kernel
  have hsums : ∀ c < 63, partCount (powers 64) (2 ^ 62 - 1 + c) ≤ 62 := by decide +kernel
  have hcost : partsFee fee 62 < 63 := by
    unfold partsFee
    omega
  have hmore := hsums _ hcost
  rw [Pays, withFee, hcount]
  apply Nat.add_le_add_left
  unfold partsFee at hmore ⊢
  have := Nat.mul_le_mul_left fee hmore
  omega

theorem splitWithFee_low (hpowers : PowersBelow 64 denominations) (hfee : fee < 1000)
    (amount : Amount) (hamount : amount.toNat < 2 ^ 62) :
    ∃ parts, splitWithFee amount ⟨fee, denominations⟩ = .ok parts := by
  rcases splitOnce_ok hpowers (not_overflows hpowers hfee hamount) with
    ⟨-, hround, -⟩ | ⟨hlacks, hround⟩
  · exact ⟨_, splitWithFee_of_some hround⟩
  · have hless : amount.toNat ≠ 2 ^ 62 - 1 := by
      intro heq
      exact hlacks (heq ▸ pays_large hpowers hfee)
    let next : Amount := ⟨amount.toNat + 1, by omega⟩
    have hnext : amount.checkedAdd .one = some next := Amount.checkedAdd_eq_some.mpr rfl
    rw [splitWithFee_of_none hround hnext]
    apply splitWithFee_low hpowers hfee next
    change amount.toNat + 1 < 2 ^ 62
    omega
termination_by 2 ^ 62 - amount.toNat
decreasing_by
  have hsucc : next.toNat = amount.toNat + 1 := rfl
  omega

/-- With all powers of two, for every fee and every amount: the parts of `split_with_fee` are worth
the amount and their own fee, it fails only for an overflow, and with a fee below one for each part
it does not fail for amounts below 2^62. -/
theorem splitWithFee_pays (hpowers : PowersBelow 64 denominations) (amount : Amount) :
    PaidFor denominations fee amount (splitWithFee amount ⟨fee, denominations⟩) ∧
      (fee < 1000 → amount.toNat < 2 ^ 62 →
        ∃ parts, splitWithFee amount ⟨fee, denominations⟩ = .ok parts) :=
  ⟨paidFor_splitWithFee hpowers amount, fun hfee => splitWithFee_low hpowers hfee amount⟩

/-- Three has two parts, and four has one part for its fee. -/
theorem splitWithFee_pays_three :
    PaidFor (powers 64) 200 3 (splitWithFee 3 ⟨200, powers 64⟩) ∧
      ∃ parts, splitWithFee 3 ⟨200, powers 64⟩ = .ok parts := by
  obtain ⟨hpaid, hlow⟩ := @splitWithFee_pays (powers 64) 200 (powersBelow_powers (Nat.le_refl 64)) 3
  exact ⟨hpaid, hlow (by decide) (by decide)⟩

end Runs

end Counters

end Cdk
