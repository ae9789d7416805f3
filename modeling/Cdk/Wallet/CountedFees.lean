import Cdk.Lib.Table
import Cdk.Mint.Fees
import Cdk.Wallet.Counters

/-!
# Fees of counted proofs

The fee is worked out from a map of counts, in the order in which the map is
visited. Its sums are checked, its products are not: whether a product that is too
large panics or wraps is decided by the build. The fee of the proofs of one
keyset alone has no check at all.
-/

namespace Cdk

open Lib

namespace CountedFees

/-! ## The two functions -/

/-- What the operator `*` does where a product is too large. -/
inductive Build where
  | checked
  | wrapping
deriving DecidableEq, Repr

/-- The operator `*` on `u64`. -/
def Build.mul (build : Build) (a b : Nat) : Outcome Error Nat :=
  if a * b < 2 ^ 64 then .ok (a * b)
  else match build with
    | .checked => .panic
    | .wrapping => .ok (a * b % 2 ^ 64)

section Functions

variable (build : Build) (keysetFee : Id → Option Nat)

/-- One round of the loop over the counts. -/
def addFee (sumFee : Nat) (entry : Id × Nat) : Outcome Error Nat := do
  let keysetFeePpk ← Outcome.ofOption (.keysetUnknown entry.1) (keysetFee entry.1)
  let proofsFee ← build.mul keysetFeePpk entry.2
  Outcome.ensure (sumFee + proofsFee < 2 ^ 64) .amountOverflow
  .ok (sumFee + proofsFee)

/-- `calculate_fee` over the entries of the map of counts, in the order of its iteration. -/
def calculateFee (proofsCount : List (Id × Nat)) : Outcome Error Amount := do
  let sumFee ← proofsCount.foldlM (addFee build keysetFee) 0
  Outcome.ensure (sumFee + 999 < 2 ^ 64) .amountOverflow
  .ofOption .amountOverflow (Amount.ofNat? ((sumFee + 999) / 1000))

/-- `Wallet::get_keyset_count_fee`, with the fees of the store. -/
def getKeysetCountFee (keysetId : Id) (count : Nat) : Outcome Error Amount := do
  let inputFeePpk ← Outcome.ofOption .unknownKeySet (keysetFee keysetId)
  let fee ← build.mul inputFeePpk count
  .expect (Amount.ofNat? ((fee + 999) / 1000))

/-! ## What they are to compute -/

/-- What a keyset charges for a count. -/
def product (entry : Id × Nat) : Nat := (keysetFee entry.1).getD 0 * entry.2

/-- What the build makes of it. -/
def charge (entry : Id × Nat) : Nat :=
  match build with
  | .checked => product keysetFee entry
  | .wrapping => product keysetFee entry % 2 ^ 64

/-- A number of thousandths, rounded up, or an overflow. -/
def exactFee (thousandths : Nat) : Outcome Error Amount :=
  if h : thousandths + 999 < 2 ^ 64 then .ok ⟨(thousandths + 999) / 1000, by omega⟩
  else .err .amountOverflow

/-- In every order the fee is exact, an overflow is reported as one, a keyset without a fee is
reported, and the fee of the proofs of one keyset is the same from both functions. -/
structure FeeExact (proofsCount : Table (Prod.fst : Id × Nat → Id)) : Prop where
  unknown : ∀ entries, entries.Perm proofsCount.rows →
    (∃ entry ∈ entries, keysetFee entry.1 = none) →
      ∃ entry ∈ entries, keysetFee entry.1 = none ∧
        calculateFee build keysetFee entries = .err (.keysetUnknown entry.1)
  known : ∀ entries, entries.Perm proofsCount.rows →
    (∀ entry ∈ entries, (keysetFee entry.1).isSome = true) →
      calculateFee build keysetFee entries = exactFee (entries.map (product keysetFee)).sum
  single : ∀ id count fee, proofsCount.rows = [(id, count)] → keysetFee id = some fee →
    getKeysetCountFee build keysetFee id count = calculateFee build keysetFee [(id, count)]

/-- With the fees of all keysets: the products fit, or the sum of what they wrap to overflows as
well, and for a single keyset the product can be rounded up. Without the fee of a keyset: what the
others charge does not overflow. -/
def Fits (entries : List (Id × Nat)) : Prop :=
  if ∀ entry ∈ entries, (keysetFee entry.1).isSome = true then
    ((∀ entry ∈ entries, product keysetFee entry < 2 ^ 64) ∨
        build = .wrapping ∧ 2 ^ 64 ≤ (entries.map (charge build keysetFee)).sum + 999) ∧
      (entries.length = 1 → (entries.map (product keysetFee)).sum + 999 < 2 ^ 64)
  else (entries.map (charge build keysetFee)).sum < 2 ^ 64

instance (entries : List (Id × Nat)) : Decidable (Fits build keysetFee entries) := by
  unfold Fits
  infer_instance

end Functions

/-! ## Sums -/

section Sums

variable {build : Build} {keysetFee : Id → Option Nat} {entries : List (Id × Nat)} {sumFee : Nat}

theorem charge_le (entry : Id × Nat) :
    charge build keysetFee entry ≤ product keysetFee entry := by
  cases build with
  | checked => exact Nat.le_refl _
  | wrapping => exact Nat.mod_le _ _

theorem charge_of_fits {entry : Id × Nat} (h : product keysetFee entry < 2 ^ 64) :
    charge build keysetFee entry = product keysetFee entry := by
  cases build with
  | checked => rfl
  | wrapping => exact Nat.mod_eq_of_lt h

/-- A product that does not panic. -/
def Returns (build : Build) (keysetFee : Id → Option Nat) (entry : Id × Nat) : Prop :=
  build = .wrapping ∨ product keysetFee entry < 2 ^ 64

theorem mul_eq {entry : Id × Nat} {fee : Nat} (hfee : keysetFee entry.1 = some fee)
    (h : Returns build keysetFee entry) :
    build.mul fee entry.2 = .ok (charge build keysetFee entry) := by
  have hproduct : product keysetFee entry = fee * entry.2 := by rw [product, hfee, Option.getD_some]
  unfold Build.mul
  by_cases hlt : fee * entry.2 < 2 ^ 64
  · rw [if_pos hlt, charge_of_fits (hproduct ▸ hlt), hproduct]
  · rw [if_neg hlt]
    rcases h with rfl | h
    · rw [charge, hproduct]
    · exact absurd (hproduct ▸ h) hlt

/-- A round adds a known charge, or overflows. -/
theorem addFee_known {entry : Id × Nat} (hknown : (keysetFee entry.1).isSome = true)
    (h : Returns build keysetFee entry) :
    addFee build keysetFee sumFee entry =
      if sumFee + charge build keysetFee entry < 2 ^ 64 then
        .ok (sumFee + charge build keysetFee entry)
      else .err .amountOverflow := by
  obtain ⟨fee, hfee⟩ := Option.isSome_iff_exists.mp hknown
  rw [addFee, hfee, Outcome.ofOption_some, Outcome.bind_ok, mul_eq hfee h, Outcome.bind_ok]
  split
  next hlt =>
    rw [decide_eq_true hlt]
    rfl
  next hlt =>
    rw [decide_eq_false hlt]
    rfl

/-- The rounds add known charges, or overflow. -/
theorem foldlM_addFee (hknown : ∀ entry ∈ entries, (keysetFee entry.1).isSome = true)
    (h : ∀ entry ∈ entries, Returns build keysetFee entry) (hsum : sumFee < 2 ^ 64) :
    entries.foldlM (addFee build keysetFee) sumFee =
      if sumFee + (entries.map (charge build keysetFee)).sum < 2 ^ 64 then
        .ok (sumFee + (entries.map (charge build keysetFee)).sum)
      else .err .amountOverflow := by
  induction entries generalizing sumFee with
  | nil =>
      rw [List.foldlM_nil, List.map_nil, List.sum_nil, Nat.add_zero, if_pos hsum, Outcome.pure_eq]
  | cons entry entries ih =>
      obtain ⟨hentry, hentries⟩ := List.forall_mem_cons.mp hknown
      obtain ⟨hreturns, hrest⟩ := List.forall_mem_cons.mp h
      rw [List.foldlM_cons, addFee_known hentry hreturns, List.map_cons, List.sum_cons,
        ← Nat.add_assoc]
      by_cases hlt : sumFee + charge build keysetFee entry < 2 ^ 64
      · rw [if_pos hlt, Outcome.bind_ok, ih hentries hrest hlt]
      · rw [if_neg hlt, if_neg (by omega), Outcome.bind_err]

theorem addFee_panic {entry : Id × Nat} (hknown : (keysetFee entry.1).isSome = true)
    (h : ¬ Returns build keysetFee entry) : addFee build keysetFee sumFee entry = .panic := by
  obtain ⟨fee, hfee⟩ := Option.isSome_iff_exists.mp hknown
  have hproduct : product keysetFee entry = fee * entry.2 := by rw [product, hfee, Option.getD_some]
  have hmul : build.mul fee entry.2 = .panic := by
    cases build with
    | checked => exact if_neg fun hlt => h (.inr (hproduct ▸ hlt))
    | wrapping => exact absurd (.inl rfl) h
  rw [addFee, hfee, Outcome.ofOption_some, Outcome.bind_ok, hmul, Outcome.bind_panic]

/-- Known charges are added, overflow or panic, and nothing else. -/
theorem foldlM_addFee_cases (hknown : ∀ entry ∈ entries, (keysetFee entry.1).isSome = true)
    (hsum : sumFee < 2 ^ 64) :
    sumFee + (entries.map (charge build keysetFee)).sum < 2 ^ 64 ∨
      entries.foldlM (addFee build keysetFee) sumFee = .err .amountOverflow ∨
      entries.foldlM (addFee build keysetFee) sumFee = .panic := by
  by_cases h : ∀ entry ∈ entries, Returns build keysetFee entry
  · by_cases hlt : sumFee + (entries.map (charge build keysetFee)).sum < 2 ^ 64
    · exact .inl hlt
    · exact .inr (.inl ((foldlM_addFee hknown h hsum).trans (if_neg hlt)))
  · right
    induction entries generalizing sumFee with
    | nil => exact absurd (fun _ he => nomatch he) h
    | cons entry entries ih =>
        obtain ⟨hentry, hentries⟩ := List.forall_mem_cons.mp hknown
        rw [List.foldlM_cons]
        by_cases hreturns : Returns build keysetFee entry
        · have hrest : ¬ ∀ entry ∈ entries, Returns build keysetFee entry := fun hrest =>
            h (List.forall_mem_cons.mpr ⟨hreturns, hrest⟩)
          rw [addFee_known hentry hreturns]
          by_cases hlt : sumFee + charge build keysetFee entry < 2 ^ 64
          · rw [if_pos hlt, Outcome.bind_ok]
            exact ih hentries hlt hrest
          · rw [if_neg hlt, Outcome.bind_err]
            exact .inl rfl
        · rw [addFee_panic hentry hreturns, Outcome.bind_panic]
          exact .inr rfl

/-- A keyset without a fee ends the loop, if what comes before it does not. -/
theorem foldlM_addFee_unknown (hunknown : ∃ entry ∈ entries, keysetFee entry.1 = none)
    (hlt : sumFee + (entries.map (charge build keysetFee)).sum < 2 ^ 64) :
    ∃ entry ∈ entries, keysetFee entry.1 = none ∧
      entries.foldlM (addFee build keysetFee) sumFee = .err (.keysetUnknown entry.1) := by
  induction entries generalizing sumFee with
  | nil =>
      obtain ⟨_, hentry, -⟩ := hunknown
      cases hentry
  | cons entry entries ih =>
      rw [List.map_cons, List.sum_cons, ← Nat.add_assoc] at hlt
      rw [List.foldlM_cons]
      cases hfee : keysetFee entry.1 with
      | none =>
          refine ⟨entry, List.mem_cons_self, hfee, ?_⟩
          rw [addFee, hfee]
          rfl
      | some fee =>
          have hknown : (keysetFee entry.1).isSome = true := by
            rw [hfee]
            rfl
          have hreturns : Returns build keysetFee entry := by
            cases build with
            | wrapping => exact .inl rfl
            | checked =>
                have hcharge : charge .checked keysetFee entry = product keysetFee entry := rfl
                exact .inr (by omega)
          have hrest : ∃ entry ∈ entries, keysetFee entry.1 = none := by
            obtain ⟨other, hother, hnone⟩ := hunknown
            rcases List.mem_cons.mp hother with rfl | hother
            · cases hnone.symm.trans hfee
            · exact ⟨other, hother, hnone⟩
          obtain ⟨other, hother, hnone, heq⟩ := ih hrest hlt
          refine ⟨other, List.mem_cons_of_mem entry hother, hnone, ?_⟩
          rw [addFee_known hknown hreturns, if_pos (by omega), Outcome.bind_ok, heq]

end Sums

/-! ## Exact fees -/

section Exact

variable {build : Build} {keysetFee : Id → Option Nat} {entries : List (Id × Nat)}

theorem exactFee_of_lt {n : Nat} (h : n + 999 < 2 ^ 64) :
    exactFee n = .ok ⟨(n + 999) / 1000, by omega⟩ := dif_pos h

theorem exactFee_of_le {n : Nat} (h : 2 ^ 64 ≤ n + 999) : exactFee n = .err .amountOverflow :=
  dif_neg (Nat.not_lt_of_le h)

/-- Without a panic the fee is that of the charges. -/
theorem calculateFee_eq (hknown : ∀ entry ∈ entries, (keysetFee entry.1).isSome = true)
    (h : ∀ entry ∈ entries, Returns build keysetFee entry) :
    calculateFee build keysetFee entries =
      exactFee (entries.map (charge build keysetFee)).sum := by
  rw [calculateFee, foldlM_addFee hknown h (by decide), Nat.zero_add]
  by_cases hlt : (entries.map (charge build keysetFee)).sum + 999 < 2 ^ 64
  · rw [if_pos (by omega), exactFee_of_lt hlt, Outcome.bind_ok, decide_eq_true hlt]
    exact congrArg (Outcome.ofOption _) (dif_pos (by omega))
  · rw [exactFee_of_le (Nat.le_of_not_lt hlt)]
    split
    · rw [Outcome.bind_ok, decide_eq_false hlt]
      rfl
    · rfl

theorem calculateFee_panic {entry : Id × Nat} (hknown : (keysetFee entry.1).isSome = true)
    (h : ¬ Returns build keysetFee entry) :
    calculateFee build keysetFee (entry :: entries) = .panic := by
  rw [calculateFee, List.foldlM_cons, addFee_panic hknown h]
  rfl

theorem getKeysetCountFee_eq {id : Id} {count fee : Nat} (hfee : keysetFee id = some fee)
    (h : Returns build keysetFee (id, count)) :
    getKeysetCountFee build keysetFee id count =
      .expect (Amount.ofNat? ((charge build keysetFee (id, count) + 999) / 1000)) := by
  have hmul : build.mul fee count = .ok (charge build keysetFee (id, count)) := mul_eq hfee h
  rw [getKeysetCountFee, hfee, Outcome.ofOption_some, Outcome.bind_ok, hmul, Outcome.bind_ok]

theorem getKeysetCountFee_ne_err {id : Id} {count fee : Nat} {e : Error}
    (hfee : keysetFee id = some fee) : getKeysetCountFee build keysetFee id count ≠ .err e := by
  rw [getKeysetCountFee, hfee, Outcome.ofOption_some, Outcome.bind_ok]
  have hexpect (n : Nat) : (Outcome.expect (Amount.ofNat? n) : Outcome Error Amount) ≠ .err e := by
    cases Amount.ofNat? n <;> simp [Outcome.expect]
  unfold Build.mul
  split
  · exact hexpect _
  · cases build with
    | checked => simp
    | wrapping => exact hexpect _

theorem sum_charge_le : (entries.map (charge build keysetFee)).sum ≤
    (entries.map (product keysetFee)).sum :=
  List.sum_le_sum fun entry _ => charge_le entry

theorem product_le_sum {entry : Id × Nat} (h : entry ∈ entries) :
    product keysetFee entry ≤ (entries.map (product keysetFee)).sum :=
  List.single_le_sum (fun _ _ => Nat.zero_le _) _ (List.mem_map_of_mem h)

/-- Exact fees of known keysets have products that fit or overflow. -/
theorem FeeExact.products {proofsCount : Table (Prod.fst : Id × Nat → Id)}
    (h : FeeExact build keysetFee proofsCount)
    (hall : ∀ entry ∈ proofsCount.rows, (keysetFee entry.1).isSome = true) :
    (∀ entry ∈ proofsCount.rows, product keysetFee entry < 2 ^ 64) ∨
      build = .wrapping ∧ 2 ^ 64 ≤ (proofsCount.rows.map (charge build keysetFee)).sum + 999 := by
  by_contra hnot
  obtain ⟨hlarge, hwraps⟩ := not_or.mp hnot
  obtain ⟨entry, hentry, hover⟩ : ∃ entry ∈ proofsCount.rows,
      2 ^ 64 ≤ product keysetFee entry := by
    by_contra hnone
    exact hlarge fun entry hentry => Nat.lt_of_not_le fun hle => hnone ⟨entry, hentry, hle⟩
  have hsum := hover.trans (product_le_sum hentry)
  cases build with
  | checked =>
      -- in the order that starts with the large product the call panics
      have hperm := List.perm_cons_erase hentry
      have hexact := h.known _ hperm.symm fun e he => hall e (hperm.mem_iff.mpr he)
      rw [calculateFee_panic (hall entry hentry) fun hreturns => by
        rcases hreturns with hreturns | hlt
        · cases hreturns
        · omega, exactFee_of_le (by rw [List.map_cons, List.sum_cons]; omega)] at hexact
      cases hexact
  | wrapping =>
      have hexact := h.known _ (List.Perm.refl _) hall
      have hless := Nat.lt_of_not_le fun hle => hwraps ⟨rfl, hle⟩
      rw [calculateFee_eq hall fun _ _ => .inl rfl, exactFee_of_lt hless,
        exactFee_of_le (hsum.trans (Nat.le_add_right _ _))] at hexact
      cases hexact

/-- Where a missing fee is always reported, the other charges do not overflow. -/
theorem FeeExact.sum_lt {proofsCount : Table (Prod.fst : Id × Nat → Id)}
    (h : FeeExact build keysetFee proofsCount)
    (hnone : ∃ entry ∈ proofsCount.rows, keysetFee entry.1 = none) :
    (proofsCount.rows.map (charge build keysetFee)).sum < 2 ^ 64 := by
  let isKnown : Id × Nat → Bool := fun entry => (keysetFee entry.1).isSome
  have hperm : (proofsCount.rows.filter isKnown ++ proofsCount.rows.filter (!isKnown ·)).Perm
      proofsCount.rows := List.filter_append_perm isKnown proofsCount.rows
  have hzero : ((proofsCount.rows.filter (!isKnown ·)).map (charge build keysetFee)).sum = 0 := by
    apply List.sum_eq_zero
    intro c hc
    obtain ⟨entry, hentry, rfl⟩ := List.mem_map.mp hc
    have hfee : keysetFee entry.1 = none := by simpa [isKnown] using (List.mem_filter.mp hentry).2
    have hproduct : product keysetFee entry = 0 := by rw [product, hfee, Option.getD_none, zero_mul]
    have hle : charge build keysetFee entry ≤ product keysetFee entry := charge_le entry
    omega
  have hsum := (hperm.map (charge build keysetFee)).sum_eq
  rw [List.map_append, List.sum_append, hzero, Nat.add_zero] at hsum
  rw [← hsum]
  by_contra hover
  -- with the known keysets first the call ends before it gets to the unknown one
  obtain ⟨entry, hentry, hfee⟩ := hnone
  obtain ⟨other, -, -, hunknown⟩ := h.unknown _ hperm ⟨entry, hperm.mem_iff.mpr hentry, hfee⟩
  rw [calculateFee, List.foldlM_append] at hunknown
  have hknown : ∀ entry ∈ proofsCount.rows.filter isKnown, (keysetFee entry.1).isSome = true :=
    fun entry hentry => (List.mem_filter.mp hentry).2
  have hzeroLt : 0 < 2 ^ 64 := by decide
  rcases @foldlM_addFee_cases build _ _ _ hknown hzeroLt with hlt | herr | hpanic
  · exact hover (by rwa [Nat.zero_add] at hlt)
  · rw [herr] at hunknown
    cases hunknown
  · rw [hpanic] at hunknown
    cases hunknown

/-- For every build, every map of fees and every map of counts, without a bound: fees are exact or
report an overflow exactly if the products fit. -/
theorem feeExact_iff (build : Build) (keysetFee : Id → Option Nat)
    (proofsCount : Table (Prod.fst : Id × Nat → Id)) :
    FeeExact build keysetFee proofsCount ↔ Fits build keysetFee proofsCount.rows := by
  unfold Fits
  constructor
  · intro h
    split
    next hall =>
      refine ⟨h.products hall, fun hone => ?_⟩
      obtain ⟨⟨id, count⟩, hrows⟩ := List.length_eq_one_iff.mp hone
      rw [hrows] at hall ⊢
      obtain ⟨fee, hfee⟩ := Option.isSome_iff_exists.mp (hall _ (List.mem_singleton_self _))
      by_contra hover
      have hexact := h.known _ (List.Perm.refl _) (hrows ▸ hall)
      rw [hrows, exactFee_of_le (Nat.le_of_not_lt hover), ← h.single id count fee hrows hfee]
        at hexact
      exact getKeysetCountFee_ne_err hfee hexact
    next hsome =>
      apply h.sum_lt
      simpa [Option.isSome_iff_ne_none] using hsome
  · intro h
    constructor
    · rintro entries hperm ⟨entry, hentry, hfee⟩
      have hsome : ¬ ∀ entry ∈ proofsCount.rows, (keysetFee entry.1).isSome = true := by
        intro hall
        have hknown := hall entry (hperm.mem_iff.mp hentry)
        rw [hfee] at hknown
        cases hknown
      rw [if_neg hsome, ← (hperm.map (charge build keysetFee)).sum_eq] at h
      obtain ⟨other, hother, hnone, heq⟩ :=
        foldlM_addFee_unknown ⟨entry, hentry, hfee⟩ ((Nat.zero_add _).trans_lt h)
      refine ⟨other, hother, hnone, ?_⟩
      rw [calculateFee, heq, Outcome.bind_err]
    · intro entries hperm hknown
      have hall : ∀ entry ∈ proofsCount.rows, (keysetFee entry.1).isSome = true := fun e he =>
        hknown e (hperm.mem_iff.mpr he)
      rw [if_pos hall] at h
      rcases h.1 with hfits | ⟨rfl, hover⟩
      · have hfits : ∀ entry ∈ entries, product keysetFee entry < 2 ^ 64 := fun e he =>
          hfits e (hperm.mem_iff.mp he)
        rw [calculateFee_eq hknown fun e he => .inr (hfits e he),
          List.map_congr_left fun e he => charge_of_fits (hfits e he)]
      · rw [← (hperm.map (charge .wrapping keysetFee)).sum_eq] at hover
        have hlarge : 2 ^ 64 ≤ (entries.map (product keysetFee)).sum + 999 :=
          hover.trans (Nat.add_le_add_right sum_charge_le 999)
        rw [calculateFee_eq hknown fun _ _ => .inl rfl, exactFee_of_le hover, exactFee_of_le hlarge]
    · intro id count fee hrows hfee
      have hall : ∀ entry ∈ proofsCount.rows, (keysetFee entry.1).isSome = true := by
        rw [hrows]
        exact List.forall_mem_singleton.mpr (Option.isSome_iff_exists.mpr ⟨fee, hfee⟩)
      rw [if_pos hall, hrows] at h
      have hround := h.2 rfl
      rw [List.map_singleton, List.sum_singleton] at hround
      have hfits : product keysetFee (id, count) < 2 ^ 64 := by omega
      rw [calculateFee_eq (hrows ▸ hall) fun e he => .inr (List.mem_singleton.mp he ▸ hfits),
        getKeysetCountFee_eq hfee (.inr hfits), List.map_singleton, List.sum_singleton,
        charge_of_fits hfits, exactFee_of_lt hround]
      exact congrArg Outcome.expect (dif_pos (by omega))

/-- Two proofs of a keyset that charges 2^63 thousandths each. -/
def largeCounts : Table (Prod.fst : Id × Nat → Id) :=
  ⟨[(.v1 0, 2)], List.nodup_singleton _⟩

/-- Their fee wraps to nothing, or panics. -/
theorem not_feeExact_large : ¬ FeeExact .wrapping (fun _ => some (2 ^ 63)) largeCounts ∧
    ¬ FeeExact .checked (fun _ => some (2 ^ 63)) largeCounts := by
  constructor
  · intro h
    have hexact := h.known _ (List.Perm.refl _) (by decide)
    exact absurd hexact (by decide +kernel)
  · intro h
    have hexact := h.known _ (List.Perm.refl _) (by decide)
    exact absurd hexact (by decide +kernel)

end Exact

/-! ## The callers -/

/-- `Proofs::count_by_keyset`. -/
def countByKeyset (proofs : List Proof) : List (Id × Nat) :=
  (proofs.map Proof.keysetId).dedup.map fun id => (id, proofs.countP fun p => p.keysetId = id)

theorem wrapping_mul (a b : Nat) : Build.wrapping.mul a b = .ok (a * b % 2 ^ 64) := by
  unfold Build.mul
  split
  next hlt => rw [Nat.mod_eq_of_lt hlt]
  next => rfl

theorem addFee_count (keysets : Keysets) (proofs : List Proof) (sum : Nat) (id : Id) :
    Cdk.addFee keysets proofs sum id =
      addFee .wrapping (fun id => (keysets.info id).map KeySet.inputFeePpk) sum
        (id, proofs.countP fun p => p.keysetId = id) := by
  rw [Cdk.addFee, addFee]
  cases keysets.info id with
  | none => rfl
  | some keyset =>
      simp only [Option.map_some, Outcome.ofOption_some, Outcome.bind_ok, wrapping_mul]

/-- The fee of inputs at the mint is that of their counts. -/
theorem calculateFee_counts (keysets : Keysets) (proofs : List Proof) :
    Cdk.calculateFee keysets proofs =
      calculateFee .wrapping (fun id => (keysets.info id).map KeySet.inputFeePpk)
        (countByKeyset proofs) := by
  have hrounds : Cdk.addFee keysets proofs = fun sum id =>
      addFee .wrapping (fun id => (keysets.info id).map KeySet.inputFeePpk) sum
        (id, proofs.countP fun p => p.keysetId = id) :=
    funext fun sum => funext fun id => addFee_count keysets proofs sum id
  rw [Cdk.calculateFee, calculateFee, countByKeyset, List.foldlM_map, hrounds]

/-- The fee that is added to the outputs of a swap, in a build with checks. -/
theorem keysetCountFee_eq_ok {id : Id} {fee count : Nat} {result : Amount} :
    Counters.keysetCountFee fee count = .ok result ↔
      getKeysetCountFee .checked (fun _ => some fee) id count = .ok result := by
  rw [Counters.keysetCountFee, getKeysetCountFee, Outcome.ofOption_some, Outcome.bind_ok]
  unfold Build.mul
  split
  · rw [Outcome.bind_ok, Outcome.expect_eq_ok, Outcome.expect_eq_ok]
  · simp

end CountedFees

end Cdk
