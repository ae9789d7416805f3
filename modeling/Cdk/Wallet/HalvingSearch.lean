import Cdk.Wallet.GreedySelection

/-!
# The search for halves

For a part of the amount that has no proof of its own the wallet looks for two
proofs of the half, four of the quarter and so on. What the search misses at each
level is the number of the halves of that level less what the proofs of the larger
halves cover, and the counter holds twice that number at the end of a level.
-/

namespace Cdk

open Lib

namespace Selection

/-- A search and what is selected when it starts. -/
structure Search where
  selected : List Proof
  remainingAmount : Amount
  deriving DecidableEq

/-- The searches of the loop over the parts that no proof was found for. -/
def searchesFrom (proofs : List Proof) : List Proof → List Amount → List Search
  | _, [] => []
  | selected, remainingAmount :: rest =>
      ⟨selected, remainingAmount⟩ ::
        searchesFrom proofs (selectRemaining proofs selected remainingAmount) rest

/-- The searches of `Wallet::select_proofs`. The fees are selected without any, as no keyset is
given for them. -/
def searches (order : HashOrder) (amount : Amount) (proofs : List Proof)
    (activeKeysetIds : List Id) (fees : KeysetFeeAndAmounts) : Outcome Error (List Search) :=
  if amount = .zero then .ok []
  else do
    let available ← totalAmount proofs
    Outcome.ensure (amount ≤ available) .insufficientFunds
    let proofs := sortDescending proofs
    let inactive := inactiveProofs activeKeysetIds proofs
    let inactiveAmount ← totalAmount (order.visit inactive)
    if amount ≤ inactiveAmount then .ok []
    else do
      let (selected, remainingAmounts) ←
        fees.entries.rows.foldlM (selectForKeyset amount proofs) (inactive, [])
      .ok (searchesFrom proofs selected remainingAmounts)

/-- The numbers that the loop over the halves computes for its counter, before they wrap. -/
def counterValues (proofs : List Proof) (n : Int) (targetAmount : Amount)
    (selected : List Proof) : List Int :=
  let currAmount := half targetAmount
  if currAmount.toNat = 0 then []
  else
    let (next, count) := selectUpTo proofs currAmount n.toNat selected
    let rest := n - count
    if rest = 0 then [rest]
    else rest :: rest * 2 :: counterValues proofs (doubleI32 rest) currAmount next
termination_by targetAmount.toNat
decreasing_by
  simp only [currAmount, half] at *
  omega

/-- The range of an `i32`. -/
def InI32 (n : Int) : Prop := -2 ^ 31 ≤ n ∧ n < 2 ^ 31

/-- The counter stays in its range, and a search that finds its amount has added proofs of it. -/
structure Search.Sound (proofs : List Proof) (search : Search) : Prop where
  inI32 : ∀ n ∈ counterValues proofs 2 search.remainingAmount search.selected, InI32 n
  found : (selectHalves proofs 2 search.remainingAmount search.selected).2 = true →
    worth (selectHalves proofs 2 search.remainingAmount search.selected).1 =
      worth search.selected + search.remainingAmount.toNat

/-- All searches of a selection are sound. -/
def SearchesSound (order : HashOrder) (amount : Amount) (proofs : List Proof)
    (activeKeysetIds : List Id) (fees : KeysetFeeAndAmounts) : Prop :=
  ∀ started, searches order amount proofs activeKeysetIds fees = .ok started →
    ∀ search ∈ started, search.Sound (sortDescending proofs)

/-! ## What the proofs cover -/

/-- The number of proofs of an amount that are not selected. -/
def unselected (proofs selected : List Proof) (amount : Nat) : Nat :=
  (proofs.toFinset.filter fun p => p.amount.toNat = amount ∧ p ∉ selected).card

/-- How many of the parts of a level are covered by the proofs of that level and of larger ones.
Level `i` has `2 ^ i` parts. -/
def Search.covered (proofs : List Proof) (search : Search) : Nat → Nat
  | 0 => 0
  | i + 1 => 2 * search.covered proofs i +
      unselected proofs search.selected (search.remainingAmount.toNat / 2 ^ (i + 1))

/-- No level before `i` is covered. -/
def Search.Open (proofs : List Proof) (search : Search) (i : Nat) : Prop :=
  ∀ j < i, search.covered proofs j < 2 ^ j

/-- Fewer than `2 ^ 30` parts of a level are missing, and where none is, the parts are the whole
amount. -/
structure Search.FitsAt (proofs : List Proof) (search : Search) (i : Nat) : Prop where
  missing_lt : 2 ^ i < search.covered proofs i + 2 ^ 30
  dvd : 2 ^ i ≤ search.covered proofs i → 2 ^ i ∣ search.remainingAmount.toNat

/-- The levels after `i` that the search comes to fit. -/
def Search.FitsAfter (proofs : List Proof) (search : Search) (i : Nat) : Prop :=
  ∀ k, i < k → 2 ^ k ≤ search.remainingAmount.toNat → search.Open proofs k →
    search.FitsAt proofs k

/-- All levels that the search comes to fit. -/
def Search.Fits (proofs : List Proof) (search : Search) : Prop := search.FitsAfter proofs 0

section Unselected

variable {proofs selected : List Proof} {amount : Amount} {p : Proof}

theorem unselected_append_of_ne {a : Nat} (hp : p.amount.toNat ≠ a) :
    unselected proofs (selected ++ [p]) a = unselected proofs selected a := by
  unfold unselected
  congr 1
  apply Finset.filter_congr
  intro q _
  rw [List.mem_append, List.mem_singleton, not_or]
  constructor
  · rintro ⟨hq, hsel, -⟩
    exact ⟨hq, hsel⟩
  · rintro ⟨hq, hsel⟩
    exact ⟨hq, hsel, fun heq => hp (heq ▸ hq)⟩

theorem unselected_append (hmem : p ∈ proofs) (hsel : p ∉ selected) :
    unselected proofs (selected ++ [p]) p.amount.toNat + 1 =
      unselected proofs selected p.amount.toNat := by
  have herase : (proofs.toFinset.filter fun q =>
      q.amount.toNat = p.amount.toNat ∧ q ∉ selected ++ [p]) =
        (proofs.toFinset.filter fun q =>
          q.amount.toNat = p.amount.toNat ∧ q ∉ selected).erase p := by
    ext q
    rw [Finset.mem_erase, Finset.mem_filter, Finset.mem_filter, List.mem_append,
      List.mem_singleton, not_or]
    tauto
  have hp : p ∈ proofs.toFinset.filter fun q =>
      q.amount.toNat = p.amount.toNat ∧ q ∉ selected :=
    Finset.mem_filter.mpr ⟨List.mem_toFinset.mpr hmem, rfl, hsel⟩
  rw [unselected, herase, Finset.card_erase_add_one hp]
  rfl

theorem unselected_eq_zero
    (hall : ∀ p ∈ proofs, p.amount = amount → p ∈ selected) :
    unselected proofs selected amount.toNat = 0 := by
  rw [unselected, Finset.card_eq_zero, Finset.filter_eq_empty_iff]
  rintro p hp ⟨hamount, hsel⟩
  exact hsel (hall p (List.mem_toFinset.mp hp) (Amount.ext_toNat hamount))

/-- A level takes as many proofs as it asks for and as there are, and none of another amount. -/
theorem selectUpTo_unselected (hsorted : Descending proofs) (amount : Amount) (n : Nat)
    (selected : List Proof) :
    let (next, count) := selectUpTo proofs amount n selected
    count = min n (unselected proofs selected amount.toNat) ∧
      ∀ a ≠ amount.toNat, unselected proofs next a = unselected proofs selected a := by
  induction n generalizing selected with
  | zero => simp [selectUpTo]
  | succ n ih =>
      rw [selectUpTo]
      rcases selectProof_cases hsorted amount true selected with ⟨p, heq, hp⟩ | ⟨heq, hall⟩
      · have hp : p.amount = amount := hp
        have hfresh : p ∈ proofs ∧ p ∉ selected := by
          rw [selectProof] at heq
          split at heq
          next q hq =>
            obtain rfl : q = p := by simpa using heq
            rcases findProof_eq_some hq with hq | hq
            · exact hq
            · cases hq
          next => simp at heq
        obtain ⟨hcount, hothers⟩ := ih (selected ++ [p])
        have hone := unselected_append hfresh.1 hfresh.2
        rw [hp] at hone
        rw [heq]
        refine ⟨?_, fun a ha => ?_⟩
        · omega
        · rw [hothers a ha, unselected_append_of_ne (by rw [hp]; exact ha.symm)]
      · rw [heq]
        have hzero := unselected_eq_zero fun p hp hamount => hall p hp hamount
        exact ⟨by rw [hzero]; simp, fun _ _ => rfl⟩

end Unselected

/-! ## One level -/

section Levels

variable {proofs selected next : List Proof} {search : Search} {target : Amount} {n : Int}
  {count i : Nat}

theorem Search.Open.succ (hopen : search.Open proofs i)
    (hcovered : search.covered proofs i < 2 ^ i) : search.Open proofs (i + 1) := by
  intro j hj
  rcases Nat.lt_succ_iff_lt_or_eq.mp hj with hj | rfl
  · exact hopen j hj
  · exact hcovered

theorem Search.fitsAfter_of_lt (hlt : search.remainingAmount.toNat < 2 ^ (i + 1)) :
    search.FitsAfter proofs i := by
  intro k hk hle
  have : 2 ^ (i + 1) ≤ 2 ^ k := Nat.pow_le_pow_right (by decide) hk
  omega

/-- The level after `i` fits, and if it stays open, so do the later ones. -/
theorem Search.fitsAfter_succ (hle : 2 ^ (i + 1) ≤ search.remainingAmount.toNat)
    (hopen : search.Open proofs (i + 1)) :
    search.FitsAfter proofs i ↔ search.FitsAt proofs (i + 1) ∧
      (search.covered proofs (i + 1) < 2 ^ (i + 1) → search.FitsAfter proofs (i + 1)) := by
  constructor
  · intro h
    exact ⟨h (i + 1) (Nat.lt_succ_self i) hle hopen, fun _ k hk => h k (by omega)⟩
  · rintro ⟨hat, hlater⟩ k hk hkle hkopen
    rcases Nat.eq_or_lt_of_le (show i + 1 ≤ k from hk) with rfl | hk
    · exact hat
    · exact hlater (hkopen (i + 1) hk) k hk hkle hkopen

theorem counterValues_last (hhalf : (half target).toNat = 0) :
    counterValues proofs n target selected = [] := by
  rw [counterValues]
  exact if_pos hhalf

theorem counterValues_found (hhalf : (half target).toNat ≠ 0)
    (hupTo : selectUpTo proofs (half target) n.toNat selected = (next, count))
    (hrest : n - count = 0) : counterValues proofs n target selected = [n - count] := by
  rw [counterValues, if_neg hhalf, hupTo]
  exact if_pos hrest

theorem counterValues_next (hhalf : (half target).toNat ≠ 0)
    (hupTo : selectUpTo proofs (half target) n.toNat selected = (next, count))
    (hrest : n - count ≠ 0) : counterValues proofs n target selected =
      (n - count) :: (n - count) * 2 ::
        counterValues proofs (doubleI32 (n - count)) (half target) next := by
  rw [counterValues, if_neg hhalf, hupTo]
  exact if_neg hrest

theorem selectHalves_last (hhalf : (half target).toNat = 0) :
    selectHalves proofs n target selected = (selected, false) := by
  rw [selectHalves, selectHalvesBy]
  exact if_pos hhalf

theorem selectHalves_found (hhalf : (half target).toNat ≠ 0)
    (hupTo : selectUpTo proofs (half target) n.toNat selected = (next, count))
    (hrest : n - count = 0) : selectHalves proofs n target selected = (next, true) := by
  rw [selectHalves, selectHalvesBy, if_neg hhalf, hupTo]
  exact if_pos hrest

theorem selectHalves_next (hhalf : (half target).toNat ≠ 0)
    (hupTo : selectUpTo proofs (half target) n.toNat selected = (next, count))
    (hrest : n - count ≠ 0) : selectHalves proofs n target selected =
      selectHalves proofs (doubleI32 (n - count)) (half target) next := by
  rw [selectHalves, selectHalvesBy, if_neg hhalf, hupTo]
  exact if_neg hrest

/-- What a search has come to after the level `i`: how many parts are missing, and what it has
gained for the covered ones. -/
structure Search.Reached (proofs : List Proof) (search : Search) (i missing : Nat)
    (target : Amount) (selected : List Proof) : Prop where
  isOpen : search.Open proofs (i + 1)
  covered_add : search.covered proofs i + missing = 2 ^ i
  toNat_target : target.toNat = search.remainingAmount.toNat / 2 ^ i
  left : ∀ a ≤ target.toNat / 2,
    unselected proofs selected a = unselected proofs search.selected a
  gained : ∃ gain, worth selected = worth search.selected + gain ∧
    gain * 2 ^ i ≤ search.covered proofs i * search.remainingAmount.toNat ∧
    (2 ^ i ∣ search.remainingAmount.toNat →
      gain * 2 ^ i = search.covered proofs i * search.remainingAmount.toNat)

theorem Search.reached_start :
    search.Reached proofs 0 1 search.remainingAmount search.selected where
  isOpen := by
    intro j hj
    obtain rfl : j = 0 := by omega
    exact Nat.one_pos
  covered_add := rfl
  toNat_target := (Nat.div_one _).symm
  left _ _ := rfl
  gained := ⟨0, rfl, by simp, by simp [covered]⟩

namespace Search.Reached

variable {missing : Nat} (h : search.Reached proofs i missing target selected)

include h

theorem toNat_half : (half target).toNat = search.remainingAmount.toNat / 2 ^ (i + 1) := by
  change target.toNat / 2 = _
  rw [h.toNat_target, Nat.div_div_eq_div_mul, pow_succ]

theorem half_eq_zero_iff :
    (half target).toNat = 0 ↔ search.remainingAmount.toNat < 2 ^ (i + 1) := by
  rw [h.toNat_half, Nat.div_eq_zero_iff_lt (Nat.two_pow_pos _)]

theorem covered_succ : search.covered proofs (i + 1) =
    2 * search.covered proofs i + unselected proofs selected (half target).toNat := by
  rw [h.left _ (Nat.le_refl _ : (half target).toNat ≤ target.toNat / 2), h.toNat_half]
  rfl

/-- A level that has enough proofs ends the search, and they are worth the amount exactly if the
level divides it. -/
theorem worth_found (hmissing : 0 < missing)
    (hworth : worth next = worth selected + 2 * missing * (half target).toNat) :
    worth next = worth search.selected + search.remainingAmount.toNat ↔
      2 ^ (i + 1) ∣ search.remainingAmount.toNat := by
  obtain ⟨gain, hgain, hle, hexact⟩ := h.gained
  have hcovered := h.covered_add
  rw [h.toNat_half] at hworth
  rw [hworth, hgain]
  generalize search.remainingAmount.toNat = amount at *
  generalize search.covered proofs i = covered at *
  have hdiv := Nat.div_add_mod amount (2 ^ (i + 1))
  have hsum : 2 ^ i * amount = covered * amount + missing * amount := by
    rw [← hcovered, Nat.add_mul]
  constructor
  · intro heq
    have hamount : gain + 2 * missing * (amount / 2 ^ (i + 1)) = amount := by omega
    -- what the division drops is missing for each of the parts
    have hdropped : missing * (amount % 2 ^ (i + 1)) = 0 := by
      generalize amount / 2 ^ (i + 1) = quotient at *
      generalize amount % 2 ^ (i + 1) = rest at *
      rw [pow_succ] at hdiv
      nlinarith
    exact Nat.dvd_of_mod_eq_zero ((Nat.mul_eq_zero.mp hdropped).resolve_left hmissing.ne')
  · intro hdvd
    have hgain := hexact (dvd_trans (Nat.pow_dvd_pow 2 (Nat.le_succ i)) hdvd)
    have hmul := Nat.div_mul_cancel hdvd
    have : gain + 2 * missing * (amount / 2 ^ (i + 1)) = amount := by
      apply Nat.eq_of_mul_eq_mul_left (Nat.two_pow_pos i)
      generalize amount / 2 ^ (i + 1) = quotient at *
      rw [pow_succ] at hmul
      nlinarith
    omega

/-- A level that has too few proofs takes them all. -/
theorem succ {count : Nat} (hhalf : (half target).toNat ≠ 0)
    (hcount : count = unselected proofs selected (half target).toNat)
    (hmore : count < 2 * missing)
    (hothers : ∀ a ≠ (half target).toNat, unselected proofs next a = unselected proofs selected a)
    (hworth : worth next = worth selected + count * (half target).toNat) :
    search.Reached proofs (i + 1) (2 * missing - count) (half target) next where
  isOpen := by
    apply h.isOpen.succ
    have hcovered := h.covered_add
    rw [h.covered_succ, ← hcount, pow_succ]
    omega
  covered_add := by
    have hcovered := h.covered_add
    rw [h.covered_succ, ← hcount, pow_succ]
    omega
  toNat_target := h.toNat_half
  left a ha := by
    have hle : a ≤ target.toNat / 2 := ha.trans (Nat.div_le_self _ _)
    rw [hothers a (by omega), h.left a hle]
  gained := by
    obtain ⟨gain, hgain, hle, hexact⟩ := h.gained
    refine ⟨gain + count * (half target).toNat, by rw [hworth, hgain, Nat.add_assoc], ?_, ?_⟩
    · rw [h.covered_succ, ← hcount, h.toNat_half]
      have hdiv := Nat.div_mul_le_self search.remainingAmount.toNat (2 ^ (i + 1))
      generalize search.remainingAmount.toNat / 2 ^ (i + 1) = quotient at *
      rw [pow_succ] at hdiv ⊢
      nlinarith
    · intro hdvd
      have hgain := hexact (dvd_trans (Nat.pow_dvd_pow 2 (Nat.le_succ i)) hdvd)
      have hmul := Nat.div_mul_cancel hdvd
      rw [h.covered_succ, ← hcount, h.toNat_half]
      generalize search.remainingAmount.toNat / 2 ^ (i + 1) = quotient at *
      rw [pow_succ] at hmul ⊢
      nlinarith

end Search.Reached

theorem doubleI32_eq {m : Nat} (hm : m < 2 ^ 30) : doubleI32 m = ((2 * m : Nat) : Int) := by
  rw [doubleI32, Int.bmod_eq_of_le (by omega) (by omega)]
  omega

/-- The rest of a search is sound exactly if the later levels fit. -/
theorem Search.Reached.sound_iff (hsorted : Descending proofs) {missing : Nat}
    (h : search.Reached proofs i missing target selected) (hpos : 0 < missing)
    (hlt : missing < 2 ^ 30) (hn : n = (2 * missing : Nat)) :
    ((∀ v ∈ counterValues proofs n target selected, InI32 v) ∧
      ((selectHalves proofs n target selected).2 = true →
        worth (selectHalves proofs n target selected).1 =
          worth search.selected + search.remainingAmount.toNat)) ↔
      search.FitsAfter proofs i := by
  induction hsize : target.toNat using Nat.strong_induction_on
    generalizing i missing target selected n with
  | _ size ih =>
      by_cases hhalf : (half target).toNat = 0
      · have hfits : search.FitsAfter proofs i := fitsAfter_of_lt (h.half_eq_zero_iff.mp hhalf)
        rw [counterValues_last hhalf, selectHalves_last hhalf]
        simp [hfits]
      · have hle : 2 ^ (i + 1) ≤ search.remainingAmount.toNat :=
          Nat.le_of_not_lt fun hlt => hhalf (h.half_eq_zero_iff.mpr hlt)
        obtain ⟨next, count, hupTo⟩ : ∃ next count,
            selectUpTo proofs (half target) n.toNat selected = (next, count) := ⟨_, _, rfl⟩
        have hspec := selectUpTo_spec hsorted (half target) n.toNat selected
        have hleft := selectUpTo_unselected hsorted (half target) n.toNat selected
        rw [hupTo] at hspec hleft
        obtain ⟨-, hworth, -⟩ := hspec
        obtain ⟨hcount, hothers⟩ := hleft
        have htoNat : n.toNat = 2 * missing := by omega
        rw [htoNat] at hcount
        have hcovered := h.covered_succ
        have hadd := h.covered_add
        rw [fitsAfter_succ hle h.isOpen]
        by_cases henough : 2 * missing ≤ unselected proofs selected (half target).toNat
        · -- the level has the proofs, and the search ends
          have hall : count = 2 * missing := by omega
          have hrest : n - count = 0 := by omega
          have hfull : 2 ^ (i + 1) ≤ search.covered proofs (i + 1) := by
            rw [hcovered, pow_succ]
            omega
          have hin : InI32 0 := ⟨by decide, by decide⟩
          rw [counterValues_found hhalf hupTo hrest, selectHalves_found hhalf hupTo hrest, hrest]
          rw [hall] at hworth
          simp only [List.forall_mem_singleton, hin, true_and, forall_const]
          rw [h.worth_found hpos hworth]
          constructor
          · intro hdvd
            exact ⟨⟨by omega, fun _ => hdvd⟩, fun hopen => absurd hopen (by omega)⟩
          · rintro ⟨hat, -⟩
            exact hat.dvd hfull
        · -- the level takes what there is, and twice what is missing is next
          have hall : count = unselected proofs selected (half target).toNat := by omega
          have hmore : count < 2 * missing := by omega
          have hrest : n - count = ((2 * missing - count : Nat) : Int) := by omega
          have hne : n - count ≠ 0 := by omega
          have hopen : search.covered proofs (i + 1) < 2 ^ (i + 1) := by
            rw [hcovered, pow_succ]
            omega
          have hmissing : search.covered proofs (i + 1) + (2 * missing - count) = 2 ^ (i + 1) := by
            rw [hcovered, pow_succ]
            omega
          have hin : InI32 (n - count) := by
            rw [hrest]
            constructor <;> omega
          rw [counterValues_next hhalf hupTo hne, selectHalves_next hhalf hupTo hne]
          simp only [List.forall_mem_cons, hin, true_and]
          by_cases hfew : 2 * missing - count < 2 ^ 30
          · have hdouble : InI32 ((n - count) * 2) := by
              rw [hrest]
              constructor <;> omega
            have hat : search.FitsAt proofs (i + 1) :=
              ⟨by omega, fun hfull => absurd hfull (by omega)⟩
            have hsmaller : (half target).toNat < size := by
              have : (half target).toNat = target.toNat / 2 := rfl
              omega
            have hlater := ih _ hsmaller (h.succ hhalf hall hmore hothers hworth) (by omega) hfew
              (doubleI32_eq hfew) rfl
            rw [hrest, and_assoc] at *
            simp only [hdouble, hat, hopen, true_and, forall_const]
            exact hlater
          · have hwrapped : ¬ InI32 ((n - count) * 2) := by
              rw [hrest]
              rintro ⟨-, hlt⟩
              omega
            have hnot : ¬ search.FitsAt proofs (i + 1) := fun hat => by
              have := hat.missing_lt
              omega
            simp only [hwrapped, hnot, false_and]

theorem Search.sound_iff (hsorted : Descending proofs) :
    search.Sound proofs ↔ search.Fits proofs := by
  have hstart : search.Reached proofs 0 1 search.remainingAmount search.selected := reached_start
  rw [Fits, ← hstart.sound_iff hsorted Nat.one_pos (by decide) rfl]
  constructor
  · rintro ⟨hin, hfound⟩
    exact ⟨hin, hfound⟩
  · rintro ⟨hin, hfound⟩
    exact ⟨hin, hfound⟩

/-- A search for a power of two below `2 ^ 30` fits whatever the proofs are. -/
theorem Search.fits_of_power {k : Nat} (hk : k < 30)
    (hpower : search.remainingAmount.toNat = 2 ^ k) : search.Fits proofs := by
  intro i hi hle hopen
  rw [hpower] at hle
  have hik : i ≤ k := (Nat.pow_le_pow_iff_right (by decide)).mp hle
  constructor
  · have : 2 ^ i < 2 ^ 30 := Nat.pow_lt_pow_right (by decide) (by omega)
    omega
  · intro _
    rw [hpower]
    exact Nat.pow_dvd_pow 2 hik

end Levels

/-! ## All searches -/

/-- For all amounts, proofs and fee maps: the searches of a selection are sound exactly if each of
them fits the proofs that are not selected when it starts. -/
theorem searchesSound_iff (order : HashOrder) (amount : Amount) (proofs : List Proof)
    (activeKeysetIds : List Id) (fees : KeysetFeeAndAmounts) :
    SearchesSound order amount proofs activeKeysetIds fees ↔
      ∀ started, searches order amount proofs activeKeysetIds fees = .ok started →
        ∀ search ∈ started, search.Fits (sortDescending proofs) := by
  simp only [SearchesSound, Search.sound_iff (descending_sortDescending proofs)]

/-- A keyset with the denominations of the mint, which are the powers of two below `2 ^ 32`. -/
def powersMap : KeysetFeeAndAmounts where
  entries := ⟨[(.v1 1, ⟨0, (List.range 32).filterMap fun k => Amount.ofNat? (2 ^ k)⟩)],
    List.nodup_singleton _⟩
  fee_lt := by
    rintro entry hentry
    obtain rfl := List.mem_singleton.mp hentry
    decide

/-- With a proof of `2 ^ 32` the counter of the search for `2 ^ 31` leaves its range. -/
theorem not_searchesSound : ¬ ∀ (order : HashOrder) (amount : Amount) (proofs : List Proof)
    (activeKeysetIds : List Id) (fees : KeysetFeeAndAmounts),
    SearchesSound order amount proofs activeKeysetIds fees := by
  intro h
  let search : Search := ⟨[], 2147483648⟩
  let proofs := [sampleProof 4294967296 "a"]
  have hstarted : searches insertionOrder 2147483648 proofs [.v1 1] powersMap = .ok [search] := by
    decide +kernel
  have hsound := h insertionOrder 2147483648 proofs [.v1 1] powersMap [search] hstarted search
    (List.mem_singleton_self search)
  have hfits := (Search.sound_iff (descending_sortDescending proofs)).mp hsound
  have hcovered : ∀ j ≤ 30, search.covered (sortDescending proofs) j = 0 := by decide +kernel
  have hopen : search.Open (sortDescending proofs) 30 := fun j hj => by
    rw [hcovered j (Nat.le_of_lt hj)]
    exact Nat.two_pow_pos j
  have hmissing := (hfits 30 (by decide) (by decide) hopen).missing_lt
  rw [hcovered 30 (Nat.le_refl 30)] at hmissing
  exact absurd hmissing (by decide)

end Selection

end Cdk
