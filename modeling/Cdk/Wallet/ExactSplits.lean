import Cdk.Mint.ChangeConservation
import Cdk.Wallet.Counters

/-!
# Splits by a target

The denominations of a keyset are the first powers of two. The split of an amount
takes each of them at most once, so it keeps the amounts below the next power and
loses a part of all others. A split by a target value repeats the parts of the
value until the amount is reached, and a target of zero never gets there.
-/

namespace Cdk

open Lib

/-! ## Powers of two -/

/-- No denomination is taken twice. -/
theorem splitParts_sublist (ds : List Amount) (left : Nat) : (splitParts ds left).Sublist ds := by
  induction ds generalizing left with
  | nil => exact List.Sublist.refl []
  | cons d ds ih =>
      rw [splitParts]
      split
      · exact (ih _).cons_cons d
      · exact (ih _).cons d

theorem mem_splitParts {ds : List Amount} {left : Nat} {a : Amount} (h : a ∈ splitParts ds left) :
    a ∈ ds := (splitParts_sublist ds left).subset h

/-- A denomination is its own part. -/
theorem splitParts_self {ds : List Amount} (hsorted : ds.Pairwise fun a b => b.toNat < a.toNat)
    (hpos : ∀ d ∈ ds, 0 < d.toNat) {a : Amount} (ha : a ∈ ds) : splitParts ds a.toNat = [a] := by
  induction ds with
  | nil => cases ha
  | cons d ds ih =>
      obtain ⟨hhead, htail⟩ := List.pairwise_cons.mp hsorted
      obtain ⟨-, hrest⟩ := List.forall_mem_cons.mp hpos
      rw [splitParts]
      rcases List.mem_cons.mp ha with rfl | ha
      · rw [if_pos (Nat.le_refl _), Nat.mod_self, splitParts_zero hrest]
      · have hless := hhead a ha
        rw [if_neg (Nat.not_le_of_lt hless), Nat.mod_eq_of_lt hless, ih htail hrest ha]

/-- The denominations are the powers of two below a bound. -/
def PowersBelow (n : Nat) (denominations : List Amount) : Prop :=
  denominations.map Amount.toNat = (List.range n).map (2 ^ ·)

/-- The denominations of a new keyset. -/
def powers (n : Nat) : List Amount :=
  (List.range n).map fun k => ⟨2 ^ k % 2 ^ 64, Nat.mod_lt _ (by decide)⟩

theorem powersBelow_powers {n : Nat} (hn : n ≤ 64) : PowersBelow n (powers n) := by
  rw [PowersBelow, powers, List.map_map]
  apply List.map_congr_left
  intro k hk
  have hk := List.mem_range.mp hk
  exact Nat.mod_eq_of_lt (Nat.pow_lt_pow_right (by decide) (by omega))

namespace PowersBelow

variable {n : Nat} {denominations : List Amount}

theorem mem (h : PowersBelow n denominations) {d : Amount} (hd : d ∈ denominations) :
    ∃ k < n, d.toNat = 2 ^ k := by
  have hmem : d.toNat ∈ denominations.map Amount.toNat := List.mem_map_of_mem hd
  rw [h] at hmem
  obtain ⟨k, hk, heq⟩ := List.mem_map.mp hmem
  exact ⟨k, List.mem_range.mp hk, heq.symm⟩

theorem pos (h : PowersBelow n denominations) : ∀ d ∈ denominations, 0 < d.toNat := by
  intro d hd
  obtain ⟨k, -, hk⟩ := h.mem hd
  exact hk ▸ Nat.two_pow_pos k

/-- The largest denomination comes first in the reversed list. -/
theorem pairwise_reverse (h : PowersBelow n denominations) :
    denominations.reverse.Pairwise fun a b => b.toNat < a.toNat := by
  rw [List.pairwise_reverse, ← List.pairwise_map (f := Amount.toNat), h, List.pairwise_map]
  exact List.pairwise_lt_range.imp fun hlt => Nat.pow_lt_pow_right (by decide) hlt

theorem split_eq {ε : Type} (h : PowersBelow n denominations) (amount : Amount) :
    (amount.split denominations : Outcome ε (List Amount)) =
      .ok (splitParts denominations.reverse amount.toNat) :=
  Amount.split_eq amount h.pos

theorem mem_split (h : PowersBelow n denominations) {left : Nat} {part : Amount}
    (hpart : part ∈ splitParts denominations.reverse left) :
    part ∈ denominations ∧ ∃ k < n, part.toNat = 2 ^ k := by
  have hmem := List.mem_reverse.mp (mem_splitParts hpart)
  exact ⟨hmem, h.mem hmem⟩

/-- The parts are worth the amount if it is below the next power, and less otherwise. -/
theorem total_split (h : PowersBelow n denominations) (left : Nat) :
    Amount.total (splitParts denominations.reverse left) = left ↔ left < 2 ^ n := by
  have hpos : ∀ d ∈ denominations.reverse, 0 < d.toNat := fun d hd =>
    h.pos d (List.mem_reverse.mp hd)
  rw [(total_splitParts hpos left).2, splitsExactly_powers h left]

/-- With all powers of two nothing is lost. -/
theorem total_split_amount (h : PowersBelow 64 denominations) (amount : Amount) :
    Amount.total (splitParts denominations.reverse amount.toNat) = amount.toNat :=
  (h.total_split amount.toNat).mpr amount.isLt

end PowersBelow

/-! ## What a split keeps -/

namespace Counters

/-- The split of an amount is worth the amount, and so are the change of a melt and the outputs
that are made from it. -/
structure LosesNothing (denominations : List Amount) (amount : Amount) : Prop where
  parts : ∃ parts, (amount.split denominations : Outcome Error (List Amount)) = .ok parts ∧
    (∀ part ∈ parts, part ∈ denominations) ∧ Amount.total parts = amount.toNat
  change : ∀ keysets info spent,
    changeDenominations keysets info.changeOutputs = denominations →
      changeTarget info spent = amount.toNat →
        Amount.total (changeParts keysets info spent) = amount.toNat
  outputs : ∀ rounds fee, ∃ parts,
    splitTargeted rounds amount .none ⟨fee, denominations⟩ = .ok parts ∧
      Amount.total parts = amount.toNat

theorem total_sortAmounts (parts : List Amount) :
    Amount.total (sortAmounts parts) = Amount.total parts :=
  Amount.total_perm (List.perm_insertionSort _ parts)

/-- For every keyset and every amount: the splits lose nothing exactly for the amounts below twice
the largest denomination. -/
theorem losesNothing_iff_lt {n : Nat} {denominations : List Amount}
    (hpowers : PowersBelow n denominations) (amount : Amount) :
    LosesNothing denominations amount ↔ amount.toNat < 2 ^ n := by
  have hsplit : (amount.split denominations : Outcome Error (List Amount)) =
      .ok (splitParts denominations.reverse amount.toNat) := hpowers.split_eq amount
  constructor
  · intro h
    obtain ⟨parts, hparts, -, htotal⟩ := h.parts
    cases hsplit.symm.trans hparts
    exact (hpowers.total_split amount.toNat).mp htotal
  · intro hlt
    have htotal := (hpowers.total_split amount.toNat).mpr hlt
    constructor
    · exact ⟨_, hsplit, fun part hpart => (hpowers.mem_split hpart).1, htotal⟩
    · intro keysets info spent hdenominations htarget
      rw [changeParts, hdenominations, htarget, htotal]
    · intro rounds fee
      refine ⟨sortAmounts (splitParts denominations.reverse amount.toNat), ?_, ?_⟩
      · rw [splitTargeted, hsplit, Outcome.bind_ok]
      · rw [total_sortAmounts, htotal]

theorem losesNothing_iff_lt_three : LosesNothing (powers 32) 3 ∧ ¬ LosesNothing (powers 1) 3 := by
  rw [losesNothing_iff_lt (powersBelow_powers (by decide)), losesNothing_iff_lt
    (powersBelow_powers (by decide))]
  decide

/-- The keysets of a mint have 32 denominations, and half of 2^32 is lost. -/
theorem not_losesNothing_large :
    ¬ ∀ (n : Nat) (denominations : List Amount) (amount : Amount), 1 ≤ n → n ≤ 64 →
      PowersBelow n denominations → LosesNothing denominations amount := by
  intro h
  have hpowers : PowersBelow 32 (powers 32) := powersBelow_powers (by decide)
  obtain ⟨parts, hparts, -, htotal⟩ :=
    (h 32 (powers 32) 4294967296 (by decide) (by decide) hpowers).parts
  rw [hpowers.split_eq] at hparts
  cases hparts
  exact absurd ((hpowers.total_split _).mp htotal) (by decide)

/-! ## A target value -/

/-- The sums of the parts, added to a sum one after the other until the amount is reached, are
amounts. -/
def SumsFit (amount : Nat) : Nat → List Amount → Prop
  | _, [] => True
  | sum, part :: rest =>
      sum < amount → sum + part.toNat < 2 ^ 64 ∧ SumsFit amount (sum + part.toNat) rest

def SumsFit.decide (amount : Nat) :
    (sum : Nat) → (parts : List Amount) → Decidable (SumsFit amount sum parts)
  | _, [] => inferInstanceAs (Decidable True)
  | sum, part :: rest =>
      have := SumsFit.decide amount (sum + part.toNat) rest
      inferInstanceAs (Decidable (_ → _ ∧ _))

instance (amount sum : Nat) (parts : List Amount) : Decidable (SumsFit amount sum parts) :=
  SumsFit.decide amount sum parts

theorem sumsFit_of_le {amount sum : Nat} {parts : List Amount}
    (h : sum + Amount.total parts < 2 ^ 64) : SumsFit amount sum parts := by
  induction parts generalizing sum with
  | nil => trivial
  | cons part rest ih =>
      rw [Amount.total_cons] at h
      intro _
      exact ⟨by omega, ih (by omega)⟩

/-- Where the amount is reached, the rest does not matter. -/
theorem sumsFit_of_reached {amount sum : Nat} (parts : List Amount) (h : amount ≤ sum) :
    SumsFit amount sum parts := by
  cases parts with
  | nil => trivial
  | cons part rest => exact fun hlt => absurd hlt (by omega)

section TargetValue

variable {denominations : List Amount} {amount : Amount}

/-- What has been split so far, with its total. -/
structure SoFar (denominations : List Amount) (acc : List Amount × Amount) (sum : Nat) : Prop where
  mem : ∀ part ∈ acc.1, part ∈ denominations
  total : acc.2.toNat = Amount.total acc.1
  sum : acc.2.toNat = sum

theorem SoFar.trySum {acc : List Amount × Amount} {sum : Nat} (h : SoFar denominations acc sum) :
    Amount.trySum acc.1 = some acc.2 := Amount.trySum_eq_some.mpr h.total

/-- A round adds the parts of the value up to the amount, or panics in an addition. -/
theorem addValueParts_eq (hpowers : PowersBelow 64 denominations) {parts : List Amount}
    (hparts : ∀ part ∈ parts, part ∈ denominations) {acc : List Amount × Amount} {sum : Nat}
    (hacc : SoFar denominations acc sum) (hlt : sum < amount.toNat) :
    (SumsFit amount.toNat sum parts ∧
        ∃ last, addValueParts amount denominations parts acc = .ok last ∧
          SoFar denominations last (min amount.toNat (sum + Amount.total parts))) ∨
      (¬ SumsFit amount.toNat sum parts ∧
        addValueParts amount denominations parts acc = .panic) := by
  induction parts generalizing acc sum with
  | nil =>
      refine .inl ⟨trivial, acc, rfl, hacc.mem, hacc.total, hacc.sum.trans ?_⟩
      rw [Amount.total_nil]
      omega
  | cons part rest ih =>
      obtain ⟨soFar, partsTotal⟩ := acc
      have htotal : partsTotal.toNat = Amount.total soFar := hacc.total
      have hsum : partsTotal.toNat = sum := hacc.sum
      obtain ⟨hpart, hrest⟩ := List.forall_mem_cons.mp hparts
      rw [addValueParts, SumsFit, Amount.total_cons, Amount.add]
      by_cases hover : sum + part.toNat < 2 ^ 64
      · let next : Amount := ⟨sum + part.toNat, hover⟩
        have hnext : part.checkedAdd partsTotal = some next :=
          Amount.checkedAdd_eq_some.mpr (by change sum + part.toNat = _; omega)
        rw [hnext]
        simp only [Outcome.expect, Outcome.bind_ok]
        by_cases hle : next ≤ amount
        · have hnextLe : sum + part.toNat ≤ amount.toNat := hle
          have hlonger : SoFar denominations (soFar ++ [part], next) (sum + part.toNat) := by
            refine ⟨?_, ?_, rfl⟩
            · exact List.forall_mem_append.mpr ⟨hacc.mem, List.forall_mem_singleton.mpr hpart⟩
            · change sum + part.toNat = _
              rw [Amount.total_append, Amount.total_cons, Amount.total_nil]
              omega
          have htry : Amount.trySum (soFar ++ [part]) = some next := hlonger.trySum
          rw [if_pos hle, htry, Outcome.ofOption_some, Outcome.bind_ok]
          by_cases heq : next = amount
          · have hreached : sum + part.toNat = amount.toNat := congrArg Amount.toNat heq
            have hfits : SumsFit amount.toNat (sum + part.toNat) rest :=
              sumsFit_of_reached rest hreached.ge
            rw [if_pos heq]
            have hmin : sum + part.toNat =
                min amount.toNat (sum + (part.toNat + Amount.total rest)) := by omega
            exact .inl ⟨fun _ => ⟨hover, hfits⟩, _, rfl, hlonger.mem, hlonger.total,
              hlonger.sum.trans hmin⟩
          · have hmore : sum + part.toNat < amount.toNat :=
              lt_of_le_of_ne hnextLe fun h => heq (Amount.ext_toNat h)
            have hround := ih hrest hlonger hmore
            rw [Nat.add_assoc] at hround
            rw [if_neg heq]
            simpa only [hlt, hover, true_and, forall_const] using hround
        · -- the part is too large, and what is left of the amount is split instead
          have hnextLt : amount.toNat < sum + part.toNat := Nat.lt_of_not_le hle
          let amountLeft : Amount := ⟨amount.toNat - sum, by have := amount.isLt; omega⟩
          have hleft : amount.checkedSub partsTotal = some amountLeft :=
            Amount.checkedSub_eq_some.mpr (by change amount.toNat - sum + _ = _; omega)
          have hsplit := hpowers.total_split_amount amountLeft
          have hlast : SoFar denominations
              (soFar ++ splitParts denominations.reverse amountLeft.toNat, amount)
              amount.toNat := by
            refine ⟨?_, ?_, rfl⟩
            · exact List.forall_mem_append.mpr
                ⟨hacc.mem, fun part hpart => (hpowers.mem_split hpart).1⟩
            · change amount.toNat = _
              rw [Amount.total_append, hsplit, ← htotal]
              change _ = _ + (amount.toNat - sum)
              omega
          have hfits : SumsFit amount.toNat (sum + part.toNat) rest :=
            sumsFit_of_reached rest hnextLt.le
          have htry : Amount.trySum (soFar ++ splitParts denominations.reverse amountLeft.toNat) =
              some amount := hlast.trySum
          rw [if_neg hle, Amount.sub, hleft]
          simp only [Outcome.expect, Outcome.bind_ok, hpowers.split_eq, htry,
            Outcome.ofOption_some, if_true]
          have hmin : amount.toNat =
              min amount.toNat (sum + (part.toNat + Amount.total rest)) := by omega
          exact .inl ⟨fun _ => ⟨hover, hfits⟩, _, rfl, hlast.mem, hlast.total,
            hlast.sum.trans hmin⟩
      · have hnone : part.checkedAdd partsTotal = none :=
          dif_neg (by rw [hsum, Nat.add_comm]; exact hover)
        rw [hnone]
        exact .inr ⟨fun h => hover (h hlt).1, rfl⟩

theorem fillValue_reached {partsOfValue : List Amount} {acc : List Amount × Amount}
    (h : amount.toNat ≤ acc.2.toNat) (rounds : Nat) :
    fillValue amount denominations partsOfValue (rounds + 1) acc = .ok acc.1 := by
  have hnot : ¬ acc.2 < amount := Nat.not_lt_of_le h
  rw [fillValue, if_neg hnot]

/-- Without parts the loop does not end. -/
theorem fillValue_nil (h : .zero < amount) (rounds : Nat) :
    fillValue amount denominations [] rounds ([], .zero) = .panic := by
  induction rounds with
  | zero => rfl
  | succ rounds ih =>
      rw [fillValue, if_pos h, addValueParts, Outcome.bind_ok]
      exact ih

section Rounds

variable {partsOfValue : List Amount} {value : Nat}
  (hpowers : PowersBelow 64 denominations)
  (hparts : ∀ part ∈ partsOfValue, part ∈ denominations)
  (hvalue : Amount.total partsOfValue = value)

include hpowers hparts hvalue

/-- A round that starts below the last whole multiple of the value adds the value. -/
theorem addValueParts_whole {k : Nat} {acc : List Amount × Amount}
    (hacc : SoFar denominations acc (k * value)) (hk : k < amount.toNat / value)
    (hlt : k * value < amount.toNat) :
    ∃ last, addValueParts amount denominations partsOfValue acc = .ok last ∧
      SoFar denominations last ((k + 1) * value) := by
  have hmultiple : (k + 1) * value ≤ amount.toNat :=
    (Nat.mul_le_mul_right value hk).trans (Nat.div_mul_le_self _ _)
  have hsum : k * value + value = (k + 1) * value := (Nat.succ_mul k value).symm
  have hfits : SumsFit amount.toNat (k * value) partsOfValue := by
    apply sumsFit_of_le
    rw [hvalue, hsum]
    exact hmultiple.trans_lt amount.isLt
  rcases addValueParts_eq hpowers hparts hacc hlt with ⟨-, last, hlast, hsoFar⟩ | ⟨hnot, -⟩
  · rw [hvalue, hsum, Nat.min_eq_right hmultiple] at hsoFar
    exact ⟨last, hlast, hsoFar⟩
  · exact absurd hfits hnot

/-- The loop ends one round after the last whole multiple, if the sums there fit. -/
theorem fillValue_ok (hpos : 0 < value)
    (hfits : SumsFit amount.toNat (amount.toNat / value * value) partsOfValue)
    {left k rounds : Nat} (hleft : k + left = amount.toNat / value) (hrounds : left + 2 ≤ rounds)
    {acc : List Amount × Amount} (hacc : SoFar denominations acc (k * value)) :
    ∃ parts, fillValue amount denominations partsOfValue rounds acc = .ok parts ∧
      (∀ part ∈ parts, part ∈ denominations) ∧ Amount.total parts = amount.toNat := by
  induction left generalizing k rounds acc with
  | zero =>
      obtain ⟨rounds, rfl⟩ := Nat.exists_eq_add_of_le' hrounds
      by_cases hlt : acc.2 < amount
      · have hless : k * value < amount.toNat := hacc.sum ▸ hlt
        obtain rfl : k = amount.toNat / value := hleft
        have hover : amount.toNat < amount.toNat / value * value + value := by
          have := Nat.div_add_mod' amount.toNat value
          have := Nat.mod_lt amount.toNat hpos
          omega
        rcases addValueParts_eq hpowers hparts hacc hless with ⟨-, last, hlast, hsoFar⟩ | ⟨hnot, -⟩
        · rw [hvalue, Nat.min_eq_left hover.le] at hsoFar
          rw [fillValue, if_pos hlt, hlast, Outcome.bind_ok, fillValue_reached hsoFar.sum.ge]
          exact ⟨_, rfl, hsoFar.mem, hsoFar.total.symm.trans hsoFar.sum⟩
        · exact absurd hfits hnot
      · rw [fillValue, if_neg hlt]
        have hle : k * value ≤ amount.toNat := by
          rw [← Nat.add_zero k, hleft]
          exact Nat.div_mul_le_self _ _
        have hge : amount.toNat ≤ acc.2.toNat := Nat.le_of_not_lt hlt
        refine ⟨_, rfl, hacc.mem, hacc.total.symm.trans ?_⟩
        have := hacc.sum
        omega
  | succ left ih =>
      obtain ⟨rounds, rfl⟩ : ∃ before, rounds = before + 1 := ⟨rounds - 1, by omega⟩
      have hk : k < amount.toNat / value := by omega
      have hless : k * value < amount.toNat :=
        (Nat.mul_lt_mul_of_pos_right hk hpos).trans_le (Nat.div_mul_le_self _ _)
      have hlt : acc.2 < amount := by
        change acc.2.toNat < amount.toNat
        rw [hacc.sum]
        exact hless
      obtain ⟨last, hlast, hsoFar⟩ := addValueParts_whole hpowers hparts hvalue hacc hk hless
      rw [fillValue, if_pos hlt, hlast, Outcome.bind_ok]
      exact ih (by omega) (by omega) hsoFar

/-- If the sums after the last whole multiple do not fit, the loop ends with a panic. -/
theorem fillValue_panic
    (hfits : ¬ SumsFit amount.toNat (amount.toNat / value * value) partsOfValue)
    {k rounds : Nat} (hk : k ≤ amount.toNat / value) {acc : List Amount × Amount}
    (hacc : SoFar denominations acc (k * value)) :
    fillValue amount denominations partsOfValue rounds acc = .panic := by
  have hless : amount.toNat / value * value < amount.toNat := by
    by_contra hreached
    exact hfits (sumsFit_of_reached _ (Nat.le_of_not_lt hreached))
  induction rounds generalizing k acc with
  | zero => rfl
  | succ rounds ih =>
      have hbefore : k * value < amount.toNat := (Nat.mul_le_mul_right value hk).trans_lt hless
      have hlt : acc.2 < amount := by
        change acc.2.toNat < amount.toNat
        rw [hacc.sum]
        exact hbefore
      rw [fillValue, if_pos hlt]
      rcases Nat.lt_or_eq_of_le hk with hk | rfl
      · obtain ⟨last, hlast, hsoFar⟩ := addValueParts_whole hpowers hparts hvalue hacc hk hbefore
        rw [hlast, Outcome.bind_ok]
        exact ih hk hsoFar
      · rcases addValueParts_eq hpowers hparts hacc hbefore with ⟨hnow, -⟩ | ⟨-, hpanic⟩
        · exact absurd hnow hfits
        · rw [hpanic, Outcome.bind_panic]

end Rounds

/-- More rounds do not change the result. -/
theorem fillValue_mono {partsOfValue parts : List Amount} {rounds more : Nat}
    {acc : List Amount × Amount} (hmore : rounds ≤ more)
    (h : fillValue amount denominations partsOfValue rounds acc = .ok parts) :
    fillValue amount denominations partsOfValue more acc = .ok parts := by
  induction rounds generalizing more acc with
  | zero => cases h
  | succ rounds ih =>
      obtain ⟨more, rfl⟩ : ∃ before, more = before + 1 := ⟨more - 1, by omega⟩
      rw [fillValue] at h ⊢
      by_cases hlt : acc.2 < amount
      · rw [if_pos hlt, Outcome.bind_eq_ok] at h
        obtain ⟨next, hnext, h⟩ := h
        rw [if_pos hlt, hnext, Outcome.bind_ok]
        exact ih (by omega) h
      · rw [if_neg hlt] at h ⊢
        exact h

end TargetValue

/-! ## All targets -/

section Targets

variable (denominations : List Amount) (amount : Amount) (target : SplitTarget)

/-- Sorted parts that are worth the amount, and denominations unless they are values of the
target. -/
structure ExactParts (parts : List Amount) : Prop where
  sorted : parts.Pairwise (· ≤ ·)
  mem : (∀ values, target ≠ .values values) → ∀ part ∈ parts, part ∈ denominations
  total : Amount.total parts = amount.toNat

/-- Exact parts, or an error for values whose sum overflows or exceeds the amount. -/
def Right : Outcome Error (List Amount) → Prop
  | .ok parts => ExactParts denominations amount target parts
  | .err _ => ∃ values, target = .values values ∧
      (2 ^ 64 ≤ Amount.total values ∨ amount.toNat < Amount.total values)
  | .panic => False

/-- From some number of rounds on, the split has one result, and that is right. -/
def SplitsRight (fee : Nat) : Prop :=
  ∃ enough result, (∀ rounds, enough ≤ rounds →
      splitTargeted rounds amount target ⟨fee, denominations⟩ = result) ∧
    Right denominations amount target result

/-- A target value that is at least the amount is for zero or a denomination. One below the amount
is positive, and the sums that reach the amount fit. -/
def Splittable : SplitTarget → Prop
  | .value value =>
      if amount ≤ value then amount = .zero ∨ amount ∈ denominations
      else value ≠ .zero ∧
        SumsFit amount.toNat (amount.toNat / value.toNat * value.toNat)
          (splitParts denominations.reverse value.toNat)
  | _ => True

instance : Decidable (Splittable denominations amount target) :=
  match target with
  | .none => inferInstanceAs (Decidable True)
  | .values _ => inferInstanceAs (Decidable True)
  | .value value => inferInstanceAs (Decidable
      (if amount ≤ value then amount = .zero ∨ amount ∈ denominations
      else value ≠ .zero ∧
        SumsFit amount.toNat (amount.toNat / value.toNat * value.toNat)
          (splitParts denominations.reverse value.toNat)))

variable {denominations amount target} {parts : List Amount} {fee : Nat}

theorem sorted_sortAmounts (parts : List Amount) : (sortAmounts parts).Pairwise (· ≤ ·) := by
  have htrans : IsTrans Amount (· ≤ ·) := ⟨fun _ _ _ hab hbc => Nat.le_trans hab hbc⟩
  have htotal : Std.Total (α := Amount) (· ≤ ·) := ⟨fun a b => Nat.le_total a.toNat b.toNat⟩
  exact List.pairwise_insertionSort _ parts

theorem exactParts_sortAmounts
    (hmem : (∀ values, target ≠ .values values) → ∀ part ∈ parts, part ∈ denominations)
    (htotal : Amount.total parts = amount.toNat) :
    ExactParts denominations amount target (sortAmounts parts) where
  sorted := sorted_sortAmounts parts
  mem hnone part hpart := hmem hnone part ((List.perm_insertionSort _ parts).mem_iff.mp hpart)
  total := (total_sortAmounts parts).trans htotal

/-- The parts of an amount start with the largest, so they are sorted only if there is one. -/
theorem sorted_splitParts_iff (hpowers : PowersBelow 64 denominations) :
    (splitParts denominations.reverse amount.toNat).Pairwise (· ≤ ·) ↔
      amount = .zero ∨ amount ∈ denominations := by
  have hpos : ∀ d ∈ denominations.reverse, 0 < d.toNat := fun d hd =>
    hpowers.pos d (List.mem_reverse.mp hd)
  constructor
  · intro hsorted
    have htotal := hpowers.total_split_amount amount
    have hdescending := hpowers.pairwise_reverse.sublist
      (splitParts_sublist denominations.reverse amount.toNat)
    have hmem : ∀ part ∈ splitParts denominations.reverse amount.toNat, part ∈ denominations :=
      fun part hpart => (hpowers.mem_split hpart).1
    match hparts : splitParts denominations.reverse amount.toNat with
    | [] =>
        rw [hparts, Amount.total_nil] at htotal
        exact .inl (Amount.ext_toNat htotal.symm)
    | [part] =>
        rw [hparts, Amount.total_cons, Amount.total_nil, Nat.add_zero] at htotal
        rw [← Amount.ext_toNat htotal]
        exact .inr (hmem part (by rw [hparts]; exact List.mem_singleton_self part))
    | first :: second :: _ =>
        rw [hparts] at hsorted hdescending
        have hle : first.toNat ≤ second.toNat := List.rel_of_pairwise_cons hsorted (by simp)
        have hlt : second.toNat < first.toNat := List.rel_of_pairwise_cons hdescending (by simp)
        omega
  · rintro (rfl | hmem)
    · rw [show Amount.zero.toNat = 0 from rfl, splitParts_zero hpos]
      exact List.Pairwise.nil
    · rw [splitParts_self hpowers.pairwise_reverse hpos (List.mem_reverse.mpr hmem)]
      exact List.pairwise_singleton _ _

theorem zero_lt_of_ne {a : Amount} (h : a ≠ .zero) : 0 < a.toNat :=
  Nat.pos_of_ne_zero fun h0 => h (Amount.ext_toNat h0)

/-- The split by values keeps them and splits the rest of the amount. -/
theorem splitsRight_values (hpowers : PowersBelow 64 denominations) (values : List Amount) :
    SplitsRight denominations amount (.values values) fee := by
  have hvalues : ¬ ∀ values', SplitTarget.values values ≠ .values values' := fun h => h values rfl
  refine ⟨0, splitTargeted 0 amount (.values values) ⟨fee, denominations⟩, fun _ _ => rfl, ?_⟩
  rw [splitTargeted]
  cases hsum : Amount.trySum values with
  | none =>
      refine ⟨values, rfl, .inl ?_⟩
      by_contra hlt
      have hsome : Amount.trySum values = some ⟨Amount.total values, Nat.lt_of_not_le hlt⟩ :=
        Amount.trySum_eq_some.mpr rfl
      cases hsum.symm.trans hsome
  | some valuesTotal =>
      have htotal := Amount.trySum_eq_total hsum
      rw [Outcome.ofOption_some, Outcome.bind_ok]
      by_cases hgreater : amount < valuesTotal
      · rw [if_pos hgreater]
        exact ⟨values, rfl, .inr (htotal ▸ hgreater)⟩
      · rw [if_neg hgreater]
        by_cases hequal : amount = valuesTotal
        · rw [if_pos hequal]
          exact exactParts_sortAmounts (fun h => absurd h hvalues) (hequal ▸ htotal.symm)
        · have hle : valuesTotal.toNat ≤ amount.toNat := Nat.le_of_not_lt hgreater
          let extra : Amount := ⟨amount.toNat - valuesTotal.toNat, by have := amount.isLt; omega⟩
          have hextra : amount.checkedSub valuesTotal = some extra :=
            Amount.checkedSub_eq_some.mpr (Nat.sub_add_cancel hle)
          have hsplit := hpowers.total_split_amount extra
          rw [if_neg hequal, Amount.sub, hextra]
          simp only [Outcome.expect, Outcome.bind_ok, hpowers.split_eq]
          refine exactParts_sortAmounts (fun h => absurd h hvalues) ?_
          rw [Amount.total_append, hsplit, ← htotal]
          exact Nat.add_sub_cancel' hle

/-- The split by a value above which the amount is. -/
theorem splitsRight_value (hpowers : PowersBelow 64 denominations) {value : Amount}
    (hless : ¬ amount ≤ value) :
    SplitsRight denominations amount (.value value) fee ↔ value ≠ .zero ∧
      SumsFit amount.toNat (amount.toNat / value.toNat * value.toNat)
        (splitParts denominations.reverse value.toNat) := by
  have hnone : ∀ values, SplitTarget.value value ≠ .values values := fun _ h => nomatch h
  have hmem : ∀ part ∈ splitParts denominations.reverse value.toNat, part ∈ denominations :=
    fun part hpart => (hpowers.mem_split hpart).1
  have hvalue := hpowers.total_split_amount value
  have hstart : SoFar denominations ([], .zero) (0 * value.toNat) :=
    ⟨(fun _ hp => nomatch hp), rfl, (Nat.zero_mul _).symm⟩
  have hloop (rounds : Nat) : splitTargeted rounds amount (.value value) ⟨fee, denominations⟩ =
      (fillValue amount denominations (splitParts denominations.reverse value.toNat) rounds
        ([], .zero) >>= fun parts => .ok (sortAmounts parts)) := by
    rw [splitTargeted, if_neg hless, hpowers.split_eq, Outcome.bind_ok]
  constructor
  · rintro ⟨enough, result, hresult, hright⟩
    have hno (h : fillValue amount denominations (splitParts denominations.reverse value.toNat)
        enough ([], .zero) = .panic) : False := by
      have hpanic := hresult enough (Nat.le_refl _)
      rw [hloop, h, Outcome.bind_panic] at hpanic
      rw [← hpanic] at hright
      exact hright
    constructor
    · rintro rfl
      have hpos : ∀ d ∈ denominations.reverse, 0 < d.toNat := fun d hd =>
        hpowers.pos d (List.mem_reverse.mp hd)
      apply hno
      rw [show Amount.zero.toNat = 0 from rfl, splitParts_zero hpos]
      exact fillValue_nil (Nat.lt_of_not_le hless) enough
    · by_contra hfits
      exact hno (fillValue_panic hpowers hmem hvalue hfits (Nat.zero_le _) hstart)
  · rintro ⟨hpos, hfits⟩
    have hpos := zero_lt_of_ne hpos
    obtain ⟨parts, hparts, hpartsMem, htotal⟩ := fillValue_ok hpowers hmem hvalue hpos hfits
      (Nat.zero_add _) (Nat.le_refl _) hstart
    refine ⟨amount.toNat / value.toNat + 2, .ok (sortAmounts parts), fun rounds hrounds => ?_,
      exactParts_sortAmounts (fun _ => hpartsMem) htotal⟩
    rw [hloop, fillValue_mono hrounds hparts, Outcome.bind_ok]

/-- For every amount and every target, with all powers of two: the split comes back with exact
parts, or with an error for values that exceed the amount, exactly if a target value is large
enough not to be needed and one part is enough, or is positive and its sums are amounts. -/
theorem splitsRight_iff (hpowers : PowersBelow 64 denominations) :
    SplitsRight denominations amount target fee ↔ Splittable denominations amount target := by
  cases target with
  | none =>
      refine iff_of_true ⟨0, .ok (sortAmounts (splitParts denominations.reverse amount.toNat)),
        fun rounds _ => ?_, ?_⟩ trivial
      · rw [splitTargeted, hpowers.split_eq, Outcome.bind_ok]
      · exact exactParts_sortAmounts (fun _ part hpart => (hpowers.mem_split hpart).1)
          (hpowers.total_split_amount amount)
  | values values => exact iff_of_true (splitsRight_values hpowers values) trivial
  | value value =>
      rw [Splittable]
      by_cases hle : amount ≤ value
      · -- the parts are returned as they are split
        have hsplit (rounds : Nat) :
            splitTargeted rounds amount (.value value) ⟨fee, denominations⟩ =
              .ok (splitParts denominations.reverse amount.toNat) := by
          rw [splitTargeted, if_pos hle, hpowers.split_eq]
        rw [if_pos hle, ← sorted_splitParts_iff hpowers]
        constructor
        · rintro ⟨enough, result, hresult, hright⟩
          rw [← hresult enough (Nat.le_refl _), hsplit] at hright
          exact hright.sorted
        · intro hsorted
          refine ⟨0, _, fun rounds _ => hsplit rounds, hsorted, ?_,
            hpowers.total_split_amount amount⟩
          exact fun _ part hpart => (hpowers.mem_split hpart).1
      · rw [if_neg hle]
        exact splitsRight_value hpowers hle

theorem splitsRight_iff_three : SplitsRight (powers 64) 7 (.value 3) 0 ∧
    ¬ SplitsRight (powers 64) 3 (.value 4) 0 := by
  rw [splitsRight_iff (powersBelow_powers (by decide)),
    splitsRight_iff (powersBelow_powers (by decide))]
  decide +kernel

/-- A target value of zero repeats no parts without end. -/
theorem not_splitsRight_zero : ¬ ∀ (denominations : List Amount) (amount : Amount)
    (target : SplitTarget) (fee : Nat), PowersBelow 64 denominations →
      SplitsRight denominations amount target fee := by
  intro h
  have hpowers : PowersBelow 64 (powers 64) := powersBelow_powers (by decide)
  obtain ⟨enough, result, hresult, hright⟩ := h (powers 64) 1 (.value .zero) 0 hpowers
  have hpos : ∀ d ∈ (powers 64).reverse, 0 < d.toNat := fun d hd =>
    hpowers.pos d (List.mem_reverse.mp hd)
  rw [← hresult enough (Nat.le_refl _), splitTargeted, if_neg (by decide), hpowers.split_eq,
    Outcome.bind_ok, show Amount.zero.toNat = 0 from rfl, splitParts_zero hpos,
    fillValue_nil (by decide)] at hright
  exact hright

end Targets

end Counters

end Cdk
