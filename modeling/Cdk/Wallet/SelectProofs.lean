import Cdk.Lib.Table
import Cdk.Mint.Fees
import Cdk.Wallet.Counters
import Mathlib.Data.List.Sort

/-!
# Selecting proofs

The wallet pays with a selection of its proofs. It takes the proofs of inactive
keysets first, then one proof for each part of the amount, then proofs of half
the amount and so on, and in the end drops what it does not need. The fees of the
selection are looked at after that, and what they lack is selected once more, but
for a fee map without keysets.
-/

namespace Cdk

open Lib

namespace Selection

/-! ## Sums -/

/-- What proofs are worth. -/
def worth (proofs : List Proof) : Nat := Amount.total (proofs.map Proof.amount)

@[simp] theorem worth_nil : worth [] = 0 := rfl

@[simp] theorem worth_cons (p : Proof) (rest : List Proof) :
    worth (p :: rest) = p.amount.toNat + worth rest := Amount.total_cons p.amount _

@[simp] theorem worth_append (xs ys : List Proof) : worth (xs ++ ys) = worth xs + worth ys := by
  rw [worth, List.map_append, Amount.total_append, worth, worth]

theorem worth_le_of_sublist {xs ys : List Proof} (h : xs.Sublist ys) : worth xs ≤ worth ys :=
  Amount.total_le_of_sublist (h.map Proof.amount)

theorem worth_perm {xs ys : List Proof} (h : xs.Perm ys) : worth xs = worth ys :=
  Amount.total_perm (h.map Proof.amount)

/-- `Proofs::total_amount`. -/
def totalAmount (proofs : List Proof) : Outcome Error Amount :=
  .ofOption .amountOverflow (Amount.trySum (proofs.map Proof.amount))

theorem totalAmount_eq_ok {proofs : List Proof} {total : Amount} :
    totalAmount proofs = .ok total ↔ total.toNat = worth proofs := by
  rw [totalAmount, Outcome.ofOption_eq_ok, Amount.trySum_eq_some]
  rfl

/-! ## Fees -/

/-- `KeysetFeeAndAmounts`: the entries of the map in the order of its iteration. -/
structure KeysetFeeAndAmounts where
  entries : Table (Prod.fst : Id × Counters.FeeAndAmounts → Id)
  fee_lt : ∀ entry ∈ entries.rows, entry.2.fee < 2 ^ 64

namespace KeysetFeeAndAmounts

variable (fees : KeysetFeeAndAmounts)

def empty : KeysetFeeAndAmounts := ⟨Table.empty, by simp⟩

def get (id : Id) : Option Counters.FeeAndAmounts := (fees.entries.find? id).map Prod.snd

/-- The fee of a keyset, zero by default. -/
def feePpk (id : Id) : Amount :=
  (((fees.get id).bind fun feeAndAmounts => Amount.ofNat? feeAndAmounts.fee)).getD .zero

/-- The keysets that the map tells the fees of. -/
def keysets : Keysets :=
  fees.entries.rows.map fun entry => ⟨entry.1, .sat, true, entry.2.fee, entry.2.amounts⟩

theorem info_keysets (id : Id) : (fees.keysets.info id).map KeySet.inputFeePpk =
    (fees.get id).map Counters.FeeAndAmounts.fee := by
  rw [keysets, Keysets.info, List.find?_map, get, Table.find?, Option.map_map, Option.map_map]
  rfl

theorem feePpk_eq {id : Id} {keyset : KeySet} (h : fees.keysets.info id = some keyset) :
    (fees.feePpk id).toNat = keyset.inputFeePpk := by
  have hmap := fees.info_keysets id
  rw [h, Option.map_some] at hmap
  obtain ⟨feeAndAmounts, hget, hfee⟩ := Option.map_eq_some_iff.mp hmap.symm
  obtain ⟨entry, hentry, rfl⟩ := Option.map_eq_some_iff.mp hget
  have hlt := fees.fee_lt entry (Table.find?_eq_some.mp hentry).1
  have hofNat : Amount.ofNat? entry.2.fee = some ⟨entry.2.fee, hlt⟩ := dif_pos hlt
  rw [feePpk, hget, Option.bind_some, hofNat, ← hfee]
  rfl

/-- The fee of spending proofs. -/
def calculateFee (proofs : List Proof) : Outcome Error Amount :=
  Cdk.calculateFee fees.keysets proofs

end KeysetFeeAndAmounts

/-! ## Choosing proofs -/

/-- The order in which a set of proofs is visited, by the order in which they were inserted. -/
structure HashOrder where
  visit : List Proof → List Proof
  perm : ∀ proofs, (visit proofs).Perm proofs

/-- The proofs with the largest amounts first, in a stable order. -/
def sortDescending (proofs : List Proof) : List Proof :=
  proofs.insertionSort fun a b => b.amount ≤ a.amount

theorem sortDescending_perm (proofs : List Proof) : (sortDescending proofs).Perm proofs :=
  List.perm_insertionSort _ proofs

/-- The set of the proofs of inactive keysets. -/
def inactiveProofs (activeKeysetIds : List Id) (proofs : List Proof) : List Proof :=
  (proofs.filter fun p => p.keysetId ∉ activeKeysetIds).dedup

theorem inactiveProofs_sublist (activeKeysetIds : List Id) (proofs : List Proof) :
    (inactiveProofs activeKeysetIds proofs).Sublist proofs :=
  (List.dedup_sublist _).trans List.filter_sublist

theorem inactiveProofs_perm (activeKeysetIds : List Id) {proofs others : List Proof}
    (h : proofs.Perm others) :
    (inactiveProofs activeKeysetIds proofs).Perm (inactiveProofs activeKeysetIds others) :=
  (h.filter _).dedup

/-- A selection out of some proofs, none of which it takes twice. -/
structure Picked (proofs selected : List Proof) : Prop where
  nodup : selected.Nodup
  mem : ∀ p ∈ selected, p ∈ proofs

namespace Picked

variable {proofs selected : List Proof}

theorem inactiveProofs (activeKeysetIds : List Id) (proofs : List Proof) :
    Picked proofs (inactiveProofs activeKeysetIds proofs) where
  nodup := List.nodup_dedup _
  mem _ hp := (List.mem_filter.mp (List.mem_dedup.mp hp)).1

theorem sublist {smaller : List Proof} (h : Picked proofs selected)
    (hsub : smaller.Sublist selected) : Picked proofs smaller where
  nodup := hsub.nodup h.nodup
  mem p hp := h.mem p (hsub.subset hp)

theorem perm {other : List Proof} (h : Picked proofs selected) (hperm : other.Perm selected) :
    Picked proofs other where
  nodup := hperm.nodup_iff.mpr h.nodup
  mem p hp := h.mem p (hperm.mem_iff.mp hp)

theorem of_perm {others : List Proof} (h : Picked proofs selected) (hperm : proofs.Perm others) :
    Picked others selected where
  nodup := h.nodup
  mem p hp := hperm.mem_iff.mp (h.mem p hp)

/-- A selection and what it leaves out are worth all the proofs. -/
theorem worth_add (h : Picked proofs selected) (hnodup : proofs.Nodup) :
    worth selected + worth (proofs.filter fun p => p ∉ selected) = worth proofs := by
  rw [← worth_append]
  apply worth_perm
  apply (List.perm_ext_iff_of_nodup ?_ hnodup).mpr
  · intro p
    rw [List.mem_append, List.mem_filter, decide_eq_true_eq]
    constructor
    · rintro (hp | ⟨hp, -⟩)
      · exact h.mem p hp
      · exact hp
    · intro hp
      by_cases hsel : p ∈ selected
      · exact .inl hsel
      · exact .inr ⟨hp, hsel⟩
  · apply h.nodup.append (hnodup.filter _)
    intro _ hp hother
    exact (of_decide_eq_true (List.mem_filter.mp hother).2) hp

end Picked

/-- The loop of `select_proof` over the proofs that are not selected. -/
def findProof (selected : List Proof) (amount : Amount) (exact : Bool) :
    List Proof → Option Proof → Option Proof
  | [], lastProof => lastProof
  | proof :: rest, lastProof =>
      if proof ∈ selected then findProof selected amount exact rest lastProof
      else if proof.amount = amount then some proof
      else if exact = false ∧ amount < proof.amount then
        findProof selected amount exact rest (some proof)
      else if proof.amount < amount then lastProof
      else findProof selected amount exact rest lastProof

theorem findProof_eq_some {selected rest : List Proof} {amount : Amount} {exact : Bool}
    {lastProof : Option Proof} {p : Proof}
    (h : findProof selected amount exact rest lastProof = some p) :
    (p ∈ rest ∧ p ∉ selected) ∨ lastProof = some p := by
  induction rest generalizing lastProof with
  | nil => exact .inr h
  | cons proof rest ih =>
      rw [findProof] at h
      have later (hlater : (p ∈ rest ∧ p ∉ selected) ∨ lastProof = some p) :
          (p ∈ proof :: rest ∧ p ∉ selected) ∨ lastProof = some p :=
        hlater.imp_left fun hp => ⟨List.mem_cons_of_mem _ hp.1, hp.2⟩
      split_ifs at h with hsel heq hmore hless
      · exact later (ih h)
      · cases h
        exact .inl ⟨List.mem_cons_self, hsel⟩
      · rcases ih h with hp | hlast
        · exact later (.inl hp)
        · cases hlast
          exact .inl ⟨List.mem_cons_self, hsel⟩
      · exact .inr h
      · exact later (ih h)

/-- The closure `select_proof`. -/
def selectProof (proofs : List Proof) (amount : Amount) (exact : Bool) (selected : List Proof) :
    List Proof × Bool :=
  match findProof selected amount exact proofs none with
  | some proof => (selected ++ [proof], true)
  | none => (selected, false)

theorem Picked.selectProof {proofs selected : List Proof} (h : Picked proofs selected)
    (amount : Amount) (exact : Bool) :
    Picked proofs (selectProof proofs amount exact selected).1 := by
  unfold Selection.selectProof
  split
  next p hfind =>
    rcases findProof_eq_some hfind with ⟨hp, hsel⟩ | hlast
    · constructor
      · exact List.nodup_append.mpr ⟨h.nodup, List.nodup_singleton p, by
          rintro q hq _ hp rfl
          exact hsel (List.mem_singleton.mp hp ▸ hq)⟩
      · intro q hq
        rcases List.mem_append.mp hq with hq | hq
        · exact h.mem q hq
        · exact List.mem_singleton.mp hq ▸ hp
    · cases hlast
  next => exact h

/-- The loop over the parts of one keyset, with the parts that no proof was found for. -/
def selectOptimal (proofs : List Proof) (acc : List Proof × List Amount) (part : Amount) :
    List Proof × List Amount :=
  let (selected, found) := selectProof proofs part true acc.1
  (selected, if found then acc.2 else acc.2 ++ [part])

theorem Picked.selectOptimal {proofs : List Proof} {acc : List Proof × List Amount}
    (h : Picked proofs acc.1) (parts : List Amount) :
    Picked proofs (parts.foldl (selectOptimal proofs) acc).1 := by
  induction parts generalizing acc with
  | nil => exact h
  | cons part parts ih =>
      rw [List.foldl_cons]
      exact ih (h.selectProof part true)

/-- One round of the loop over the keysets. -/
def selectForKeyset (amount : Amount) (proofs : List Proof) (acc : List Proof × List Amount)
    (entry : Id × Counters.FeeAndAmounts) : Outcome Error (List Proof × List Amount) := do
  let parts ← amount.split entry.2.amounts
  .ok (parts.foldl (selectOptimal proofs) acc)

theorem Picked.selectForKeyset {amount : Amount} {proofs : List Proof}
    {acc last : List Proof × List Amount} {entries : List (Id × Counters.FeeAndAmounts)}
    (h : Picked proofs acc.1)
    (hlast : entries.foldlM (selectForKeyset amount proofs) acc = .ok last) :
    Picked proofs last.1 := by
  induction entries generalizing acc with
  | nil =>
      cases hlast
      exact h
  | cons entry entries ih =>
      rw [List.foldlM_cons, Outcome.bind_eq_ok] at hlast
      obtain ⟨next, hnext, hlast⟩ := hlast
      rw [Selection.selectForKeyset, Outcome.bind_eq_ok] at hnext
      obtain ⟨parts, -, hnext⟩ := hnext
      cases hnext
      exact ih (h.selectOptimal parts) hlast

/-- Select up to `n` proofs of an amount, and count them. -/
def selectUpTo (proofs : List Proof) (amount : Amount) : Nat → List Proof → List Proof × Nat
  | 0, selected => (selected, 0)
  | n + 1, selected =>
      let (next, found) := selectProof proofs amount true selected
      if found then
        let (last, count) := selectUpTo proofs amount n next
        (last, count + 1)
      else (next, 0)

theorem Picked.selectUpTo {proofs selected : List Proof} (h : Picked proofs selected)
    (amount : Amount) (n : Nat) : Picked proofs (selectUpTo proofs amount n selected).1 := by
  induction n generalizing selected with
  | zero => exact h
  | succ n ih =>
      have hnext := h.selectProof amount true
      rw [Selection.selectUpTo]
      dsimp only
      split
      · exact ih hnext
      · exact hnext

/-- Half of an amount. -/
def half (amount : Amount) : Amount :=
  ⟨amount.toNat / 2, (Nat.div_le_self _ _).trans_lt amount.isLt⟩

/-- The loop over the halves of an amount, with the number of proofs to select, which is doubled
where a half is missing. -/
def selectHalvesBy (double : Int → Int) (proofs : List Proof) (n : Int) (targetAmount : Amount)
    (selected : List Proof) : List Proof × Bool :=
  let currAmount := half targetAmount
  if currAmount.toNat = 0 then (selected, false)
  else
    let (next, count) := selectUpTo proofs currAmount n.toNat selected
    let rest := n - count
    if rest = 0 then (next, true)
    else selectHalvesBy double proofs (double rest) currAmount next
termination_by targetAmount.toNat
decreasing_by
  simp only [currAmount, half] at *
  omega

/-- Doubling an `i32`, which wraps. -/
def doubleI32 (n : Int) : Int := (n * 2).bmod (2 ^ 32)

/-- The loop over the halves as the wallet counts. -/
def selectHalves : List Proof → Int → Amount → List Proof → List Proof × Bool :=
  selectHalvesBy doubleI32

theorem Picked.selectHalvesBy {proofs selected : List Proof} (double : Int → Int)
    (h : Picked proofs selected) (n : Int) (targetAmount : Amount) :
    Picked proofs (selectHalvesBy double proofs n targetAmount selected).1 := by
  induction n, targetAmount, selected using Selection.selectHalvesBy.induct double proofs with
  | case1 n target selected currAmount hzero =>
      rw [Selection.selectHalvesBy, if_pos hzero]
      exact h
  | case2 n target selected currAmount hzero next count hupTo rest hrest =>
      have hnext := h.selectUpTo currAmount n.toNat
      rw [hupTo] at hnext
      rw [Selection.selectHalvesBy, if_neg hzero, hupTo]
      dsimp only
      rw [if_pos hrest]
      exact hnext
  | case3 n target selected currAmount hzero next count hupTo rest hrest ih =>
      have hnext := h.selectUpTo currAmount n.toNat
      rw [hupTo] at hnext
      rw [Selection.selectHalvesBy, if_neg hzero, hupTo]
      dsimp only
      rw [if_neg hrest]
      exact ih hnext

/-- One round of the loop over the parts that no proof was found for. -/
def selectRemainingBy (double : Int → Int) (proofs selected : List Proof)
    (remainingAmount : Amount) : List Proof :=
  let (selected, found) := selectHalvesBy double proofs 2 remainingAmount selected
  if found then selected else (selectProof proofs remainingAmount false selected).1

/-- The round as the wallet counts. -/
def selectRemaining : List Proof → List Proof → Amount → List Proof := selectRemainingBy doubleI32

theorem Picked.selectRemainingBy {proofs selected : List Proof} (double : Int → Int)
    (h : Picked proofs selected) (remainingAmounts : List Amount) :
    Picked proofs (remainingAmounts.foldl (selectRemainingBy double proofs) selected) := by
  induction remainingAmounts generalizing selected with
  | nil => exact h
  | cons remainingAmount rest ih =>
      have hhalves := h.selectHalvesBy double 2 remainingAmount
      rw [List.foldl_cons]
      apply ih
      rw [Selection.selectRemainingBy]
      dsimp only
      split
      · exact hhalves
      · exact hhalves.selectProof remainingAmount false

mutual

/-- `Wallet::select_least_amount_over`. -/
def selectLeastAmountOver (proofs : List Proof) (amount : Amount) :
    Outcome Error (List Proof) := do
  let totalAmount ← totalAmount proofs
  if totalAmount < amount then .err .insufficientFunds
  else if proofs.length = 1 then .ok proofs
  else leastFrom proofs amount 0
termination_by (proofs.length, proofs.length + 1)

/-- The loop of `select_least_amount_over` over the positions after `i`. -/
def leastFrom (proofs : List Proof) (amount : Amount) (i : Nat) : Outcome Error (List Proof) :=
  if i + 1 < proofs.length then do
    let left := proofs.take (i + 1)
    let right := proofs.drop (i + 1)
    let leftAmount ← totalAmount left
    let rightAmount ← totalAmount right
    if amount ≤ leftAmount ∧ amount ≤ rightAmount then
      match selectLeastAmountOver left amount, selectLeastAmountOver right amount with
      | .ok leftProofs, .ok rightProofs => do
          let leftTotalAmount ← totalAmount leftProofs
          let rightTotalAmount ← totalAmount rightProofs
          if leftTotalAmount < rightTotalAmount then .ok leftProofs else .ok rightProofs
      | .ok leftProofs, .err _ => .ok leftProofs
      | .err _, .ok rightProofs => .ok rightProofs
      | .err _, .err _ => .err .insufficientFunds
      | _, _ => .panic
    else if amount ≤ leftAmount then selectLeastAmountOver left amount
    else if amount ≤ rightAmount then selectLeastAmountOver right amount
    else leastFrom proofs amount (i + 1)
  else .ok proofs
termination_by (proofs.length, proofs.length - i)
decreasing_by
  all_goals simp only [Prod.lex_def, List.length_take, List.length_drop, true_and]
  all_goals omega

end

/-- The loop ends with what is selected of the first proofs up to a position or of those behind it,
goes on where the first ones are worth less than the amount, or keeps all proofs. -/
theorem leastFrom_cases {proofs result : List Proof} {amount : Amount} {i : Nat}
    (h : leastFrom proofs amount i = .ok result) :
    (i + 1 < proofs.length ∧
      (selectLeastAmountOver (proofs.take (i + 1)) amount = .ok result ∨
        selectLeastAmountOver (proofs.drop (i + 1)) amount = .ok result ∨
        worth (proofs.take (i + 1)) < amount.toNat ∧
          leastFrom proofs amount (i + 1) = .ok result)) ∨
      proofs.length ≤ i + 1 ∧ result = proofs := by
  rw [leastFrom] at h
  split at h
  next hi =>
    refine .inl ⟨hi, ?_⟩
    simp only [Outcome.bind_eq_ok, totalAmount_eq_ok] at h
    obtain ⟨leftAmount, hleftAmount, rightAmount, -, h⟩ := h
    split_ifs at h with hboth hl hr
    · split at h
      next leftProofs rightProofs hl hr =>
        simp only [Outcome.bind_eq_ok] at h
        obtain ⟨_, -, _, -, h⟩ := h
        split at h
        · cases h
          exact .inl hl
        · cases h
          exact .inr (.inl hr)
      next leftProofs _ hl hr =>
        cases h
        exact .inl hl
      next _ rightProofs hl hr =>
        cases h
        exact .inr (.inl hr)
      next => cases h
      next => cases h
    · exact .inl h
    · exact .inr (.inl h)
    · exact .inr (.inr ⟨hleftAmount ▸ Nat.lt_of_not_le hl, h⟩)
  next hend =>
    cases h
    exact .inr ⟨Nat.le_of_not_lt hend, rfl⟩

/-- The loop drops proofs and keeps what is worth the amount, where the calls on shorter selections
do. -/
theorem leastFrom_spec {proofs result : List Proof} {amount : Amount} {i : Nat}
    (hle : amount.toNat ≤ worth proofs)
    (ih : ∀ part least, part.length < proofs.length →
      selectLeastAmountOver part amount = .ok least →
        least.Sublist part ∧ amount.toNat ≤ worth least)
    (h : leastFrom proofs amount i = .ok result) :
    result.Sublist proofs ∧ amount.toNat ≤ worth result := by
  rcases leastFrom_cases h with ⟨hi, hleft | hright | ⟨-, hnext⟩⟩ | ⟨-, rfl⟩
  · have hspec := ih _ result (by rw [List.length_take]; omega) hleft
    exact hspec.imp_left fun hsub => hsub.trans (List.take_sublist _ _)
  · have hspec := ih _ result (by rw [List.length_drop]; omega) hright
    exact hspec.imp_left fun hsub => hsub.trans (List.drop_sublist _ _)
  · exact leastFrom_spec hle ih hnext
  · exact ⟨List.Sublist.refl _, hle⟩
termination_by proofs.length - i

/-- What remains when the unnecessary proofs are dropped is worth the amount. -/
theorem selectLeastAmountOver_spec {proofs result : List Proof} {amount : Amount}
    (h : selectLeastAmountOver proofs amount = .ok result) :
    result.Sublist proofs ∧ amount.toNat ≤ worth result := by
  rw [selectLeastAmountOver, Outcome.bind_eq_ok] at h
  obtain ⟨total, htotal, h⟩ := h
  rw [totalAmount_eq_ok] at htotal
  split_ifs at h with hless hone
  · cases h
    exact ⟨List.Sublist.refl _, htotal ▸ Nat.le_of_not_lt hless⟩
  · apply leastFrom_spec (htotal ▸ Nat.le_of_not_lt hless) _ h
    intro part least _ hleast
    exact selectLeastAmountOver_spec hleast
termination_by proofs.length

/-- The part of `select_proofs` that adds to the proofs of inactive keysets. -/
def chooseProofsBy (double : Int → Int) (order : HashOrder) (amount : Amount)
    (proofs inactive : List Proof) (fees : KeysetFeeAndAmounts) : Outcome Error (List Proof) := do
  let (selected, remainingAmounts) ←
    fees.entries.rows.foldlM (selectForKeyset amount proofs) (inactive, [])
  if remainingAmounts = [] then .ok (order.visit selected)
  else do
    let selected := order.visit
      (remainingAmounts.foldl (selectRemainingBy double proofs) selected)
    let total ← totalAmount selected
    if total ≠ amount ∧ 1 < selected.length then
      selectLeastAmountOver (sortDescending selected) amount
    else .ok selected

/-- The choice as the wallet counts. -/
def chooseProofs : HashOrder → Amount → List Proof → List Proof → KeysetFeeAndAmounts →
    Outcome Error (List Proof) := chooseProofsBy doubleI32

theorem Picked.chooseProofsBy {double : Int → Int} {order : HashOrder} {amount : Amount}
    {proofs inactive chosen : List Proof} {fees : KeysetFeeAndAmounts} (h : Picked proofs inactive)
    (hchosen : chooseProofsBy double order amount proofs inactive fees = .ok chosen) :
    Picked proofs chosen := by
  rw [Selection.chooseProofsBy, Outcome.bind_eq_ok] at hchosen
  obtain ⟨⟨selected, remainingAmounts⟩, hselected, hchosen⟩ := hchosen
  have hpicked : Picked proofs selected := h.selectForKeyset hselected
  dsimp only at hchosen
  by_cases hnone : remainingAmounts = []
  · rw [if_pos hnone] at hchosen
    cases hchosen
    exact hpicked.perm (order.perm selected)
  · rw [if_neg hnone, Outcome.bind_eq_ok] at hchosen
    obtain ⟨total, -, hchosen⟩ := hchosen
    have hall := (hpicked.selectRemainingBy double remainingAmounts).perm (order.perm _)
    split at hchosen
    · have hleast := (selectLeastAmountOver_spec hchosen).1
      exact (hall.perm (sortDescending_perm _)).sublist hleast
    · cases hchosen
      exact hall

theorem Picked.chooseProofs {order : HashOrder} {amount : Amount}
    {proofs inactive chosen : List Proof} {fees : KeysetFeeAndAmounts} (h : Picked proofs inactive)
    (hchosen : chooseProofs order amount proofs inactive fees = .ok chosen) :
    Picked proofs chosen :=
  h.chooseProofsBy hchosen

/-- `Wallet::select_proofs`, whose last step takes the selection. -/
def selectFrom (order : HashOrder) (finish : List Proof → Outcome Error (List Proof))
    (amount : Amount) (proofs : List Proof) (activeKeysetIds : List Id)
    (fees : KeysetFeeAndAmounts) : Outcome Error (List Proof) :=
  if amount = .zero then .ok []
  else do
    let available ← totalAmount proofs
    Outcome.ensure (amount ≤ available) .insufficientFunds
    let proofs := sortDescending proofs
    let inactive := inactiveProofs activeKeysetIds proofs
    let inactiveAmount ← totalAmount (order.visit inactive)
    if amount ≤ inactiveAmount then .ok (order.visit inactive)
    else do
      let chosen ← chooseProofs order amount proofs inactive fees
      finish chosen

/-- The part of `select_proofs` around the choice. -/
def selectFromBy (order : HashOrder) (choose : List Proof → List Proof → Outcome Error (List Proof))
    (amount : Amount) (proofs : List Proof) (activeKeysetIds : List Id) :
    Outcome Error (List Proof) :=
  if amount = .zero then .ok []
  else do
    let available ← totalAmount proofs
    Outcome.ensure (amount ≤ available) .insufficientFunds
    let proofs := sortDescending proofs
    let inactive := inactiveProofs activeKeysetIds proofs
    let inactiveAmount ← totalAmount (order.visit inactive)
    if amount ≤ inactiveAmount then .ok (order.visit inactive)
    else choose proofs inactive

section SelectFrom

variable {order : HashOrder} {finish : List Proof → Outcome Error (List Proof)} {amount : Amount}
  {proofs chosen : List Proof} {activeKeysetIds : List Id} {fees : KeysetFeeAndAmounts}

theorem selectFrom_eq : selectFrom order finish amount proofs activeKeysetIds fees =
    selectFromBy order
      (fun proofs inactive => chooseProofs order amount proofs inactive fees >>= finish)
      amount proofs activeKeysetIds := rfl

theorem selectFrom_zero :
    selectFrom order finish .zero proofs activeKeysetIds fees = .ok [] := if_pos rfl

/-- The choice is made unless the proofs of inactive keysets are worth the amount. -/
theorem selectFromBy_eq_ok {choose : List Proof → List Proof → Outcome Error (List Proof)}
    (hzero : amount ≠ .zero) :
    selectFromBy order choose amount proofs activeKeysetIds = .ok chosen ↔
      amount.toNat ≤ worth proofs ∧ worth proofs < 2 ^ 64 ∧
        if amount.toNat ≤ worth (inactiveProofs activeKeysetIds proofs) then
          chosen = order.visit (inactiveProofs activeKeysetIds (sortDescending proofs))
        else choose (sortDescending proofs)
          (inactiveProofs activeKeysetIds (sortDescending proofs)) = .ok chosen := by
  have hworth : worth (order.visit (inactiveProofs activeKeysetIds (sortDescending proofs))) =
      worth (inactiveProofs activeKeysetIds proofs) :=
    worth_perm ((order.perm _).trans (inactiveProofs_perm _ (sortDescending_perm proofs)))
  have hle := worth_le_of_sublist (inactiveProofs_sublist activeKeysetIds proofs)
  rw [selectFromBy, if_neg hzero]
  simp only [Outcome.bind_eq_ok, totalAmount_eq_ok, Outcome.ensure_eq_ok, decide_eq_true_eq,
    Amount.le_def]
  constructor
  · rintro ⟨available, havailable, _, hamount, inactiveAmount, hinactive, h⟩
    rw [hinactive, hworth] at h
    refine ⟨havailable ▸ hamount, havailable ▸ available.isLt, ?_⟩
    split_ifs at h ⊢
    · cases h
      rfl
    · exact h
  · rintro ⟨hamount, hlt, h⟩
    refine ⟨⟨worth proofs, hlt⟩, rfl, (), hamount,
      ⟨worth (inactiveProofs activeKeysetIds proofs), by omega⟩, hworth.symm, ?_⟩
    dsimp only
    split_ifs at h ⊢
    · exact congrArg Outcome.ok h.symm
    · exact h

/-- The last step is taken unless the proofs of inactive keysets are worth the amount. -/
theorem selectFrom_eq_ok (hzero : amount ≠ .zero) :
    selectFrom order finish amount proofs activeKeysetIds fees = .ok chosen ↔
      amount.toNat ≤ worth proofs ∧ worth proofs < 2 ^ 64 ∧
        if amount.toNat ≤ worth (inactiveProofs activeKeysetIds proofs) then
          chosen = order.visit (inactiveProofs activeKeysetIds (sortDescending proofs))
        else ∃ before, chooseProofs order amount (sortDescending proofs)
          (inactiveProofs activeKeysetIds (sortDescending proofs)) fees = .ok before ∧
            finish before = .ok chosen := by
  rw [selectFrom_eq, selectFromBy_eq_ok hzero]
  simp only [Outcome.bind_eq_ok]

/-- Proofs are chosen once and out of the given ones. -/
theorem picked_selectFrom
    (h : selectFrom order .ok amount proofs activeKeysetIds fees = .ok chosen) :
    Picked proofs chosen := by
  by_cases hzero : amount = .zero
  · rw [hzero, selectFrom_zero] at h
    cases h
    exact ⟨List.nodup_nil, fun _ hp => nomatch hp⟩
  · obtain ⟨-, -, h⟩ := (selectFrom_eq_ok hzero).mp h
    have hinactive := Picked.inactiveProofs activeKeysetIds (sortDescending proofs)
    apply Picked.of_perm _ (sortDescending_perm proofs)
    split at h
    · rw [h]
      exact hinactive.perm (order.perm _)
    · obtain ⟨before, hbefore, hlast⟩ := h
      cases hlast
      exact hinactive.chooseProofs hbefore

/-- Without a keyset to split an amount for, only the proofs of inactive keysets are chosen. -/
theorem selectFrom_empty (hzero : amount ≠ .zero) :
    selectFrom order .ok amount proofs activeKeysetIds .empty = .ok chosen ↔
      amount.toNat ≤ worth proofs ∧ worth proofs < 2 ^ 64 ∧
        chosen = order.visit (inactiveProofs activeKeysetIds (sortDescending proofs)) := by
  have hchoose (inactive : List Proof) :
      chooseProofs order amount (sortDescending proofs) inactive .empty =
        .ok (order.visit inactive) := rfl
  rw [selectFrom_eq_ok hzero, hchoose]
  simp only [Outcome.ok.injEq, exists_eq_left', eq_comm (a := chosen), ite_self]

end SelectFrom

/-- `Wallet::include_fees`. What the fees lack is selected without a keyset to split it for. -/
def includeFees (order : HashOrder) (amount : Amount) (proofs selectedProofs : List Proof)
    (activeKeysetIds : List Id) (fees : KeysetFeeAndAmounts) : Outcome Error (List Proof) := do
  let fee := (fees.calculateFee selectedProofs).getD .zero
  let total ← totalAmount selectedProofs
  let netAmount ← total.sub fee
  if amount ≤ netAmount then .ok selectedProofs
  else do
    let remainingAmount ← amount.sub netAmount
    let remainingProofs := proofs.filter fun p => p ∉ selectedProofs
    let more ← selectFrom order .ok remainingAmount remainingProofs activeKeysetIds .empty
    .ok (selectedProofs ++ more)

/-- `Wallet::select_proofs`, with the orders of its set and of the set of the call for the fees. -/
def selectProofs (order feeOrder : HashOrder) (amount : Amount) (proofs : List Proof)
    (activeKeysetIds : List Id) (fees : KeysetFeeAndAmounts) (withFees : Bool) :
    Outcome Error (List Proof) :=
  selectFrom order
    (fun selected =>
      if withFees then
        includeFees feeOrder amount (sortDescending proofs) selected activeKeysetIds fees
      else .ok selected)
    amount proofs activeKeysetIds fees

/-- The proofs with the largest amounts last, in a stable order. -/
def sortAscending (proofs : List Proof) : List Proof :=
  proofs.insertionSort fun a b => a.amount ≤ b.amount

theorem sortAscending_perm (proofs : List Proof) : (sortAscending proofs).Perm proofs :=
  List.perm_insertionSort _ proofs

/-- The exact amount to get for the largest proof, with its fee per thousand taken for an amount. -/
def exactAmount (fees : KeysetFeeAndAmounts) (amount total : Amount) (proofToExchange : Proof) :
    Option Amount := do
  let a ← total.checkedSub proofToExchange.amount
  let b ← a.checkedAdd (fees.feePpk proofToExchange.keysetId)
  amount.checkedSub b

/-- The part of `select_exact_proofs` after the selection: the largest proof is given up if the
others are worth less than the amount. -/
def exchangeLargest (fees : KeysetFeeAndAmounts) (amount : Amount) (inputProofs : List Proof) :
    List Proof × Option (Proof × Amount) :=
  let totalForProofs := (totalAmount inputProofs).getD .zero
  if amount < totalForProofs then
    let inputProofs := sortAscending inputProofs
    match inputProofs.getLast? with
    | some proofToExchange =>
        match exactAmount fees amount totalForProofs proofToExchange with
        | some exactAmountToMelt =>
            (inputProofs.dropLast, some (proofToExchange, exactAmountToMelt))
        | none => (inputProofs.dropLast ++ [proofToExchange], none)
    | none => (inputProofs, none)
  else (inputProofs, none)

/-- `Wallet::select_exact_proofs`. -/
def selectExactProofs (order feeOrder : HashOrder) (amount : Amount) (proofs : List Proof)
    (activeKeysetIds : List Id) (fees : KeysetFeeAndAmounts) (withFees : Bool) :
    Outcome Error (List Proof × Option (Proof × Amount)) := do
  let inputProofs ← selectProofs order feeOrder amount proofs activeKeysetIds fees withFees
  .ok (exchangeLargest fees amount inputProofs)

end Selection

end Cdk
