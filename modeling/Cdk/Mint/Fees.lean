import Cdk.Mint.Signatory
import Mathlib.Data.List.Dedup
import Mathlib.Algebra.Order.BigOperators.Group.List

/-!
# Input fees

A keyset charges a number of thousandths for each of its proofs that is spent.
The fee of some proofs is the sum over their keysets, rounded up, and is not
defined where a keyset is unknown or the sum overflows.
-/

namespace Cdk

open Lib

section Fees

variable {keysets keysets' : Keysets} {proofs proofs' : List Proof} {fee : Amount}

/-- What the proofs of one keyset are charged in thousandths. -/
def chargedBy (keysets : Keysets) (proofs : List Proof) (id : Id) : Nat :=
  ((keysets.info id).map KeySet.inputFeePpk).getD 0 *
    (proofs.countP fun p => p.keysetId = id) % 2 ^ 64

/-- What proofs are charged in thousandths. -/
def charged (keysets : Keysets) (proofs : List Proof) : Nat :=
  ((proofs.map Proof.keysetId).dedup.map (chargedBy keysets proofs)).sum

theorem addFee_eq_ok {sum next : Nat} {id : Id} :
    addFee keysets proofs sum id = .ok next ↔ (keysets.info id).isSome = true ∧
      next = sum + chargedBy keysets proofs id ∧ next < 2 ^ 64 := by
  unfold addFee chargedBy
  cases keysets.info id with
  | none => simp [Outcome.ofOption]
  | some keyset =>
      simp only [Outcome.ofOption_some, Outcome.bind_ok, Outcome.bind_eq_ok, Outcome.ensure_eq_ok,
        decide_eq_true_eq, Outcome.ok.injEq, Option.map_some, Option.getD_some, Option.isSome_some,
        true_and, exists_const]
      constructor
      · rintro ⟨hlt, rfl⟩
        exact ⟨rfl, hlt⟩
      · rintro ⟨rfl, hlt⟩
        exact ⟨hlt, rfl⟩

/-- The overflow checks pass in every round if they pass for the sum. -/
theorem foldlM_addFee {ids : List Id} {sum last : Nat} (hlast : last < 2 ^ 64) :
    ids.foldlM (addFee keysets proofs) sum = .ok last ↔
      (∀ id ∈ ids, (keysets.info id).isSome = true) ∧
        last = sum + (ids.map (chargedBy keysets proofs)).sum := by
  induction ids generalizing sum with
  | nil =>
      rw [List.foldlM_nil, Outcome.pure_eq, Outcome.ok.injEq, List.map_nil, List.sum_nil,
        Nat.add_zero, eq_comm]
      exact ⟨fun h => ⟨(fun _ hid => nomatch hid), h⟩, And.right⟩
  | cons id ids ih =>
      simp only [List.foldlM_cons, Outcome.bind_eq_ok, addFee_eq_ok, ih, List.forall_mem_cons,
        List.map_cons, List.sum_cons]
      constructor
      · rintro ⟨next, ⟨hid, rfl, -⟩, hids, hsum⟩
        exact ⟨⟨hid, hids⟩, by omega⟩
      · rintro ⟨⟨hid, hids⟩, hsum⟩
        exact ⟨_, ⟨hid, rfl, by omega⟩, hids, by omega⟩

theorem calculateFee_eq_ok :
    calculateFee keysets proofs = .ok fee ↔
      (∀ p ∈ proofs, (keysets.info p.keysetId).isSome = true) ∧
        charged keysets proofs + 999 < 2 ^ 64 ∧
        fee.toNat = (charged keysets proofs + 999) / 1000 := by
  have hids : (∀ id ∈ (proofs.map Proof.keysetId).dedup, (keysets.info id).isSome = true) ↔
      ∀ p ∈ proofs, (keysets.info p.keysetId).isSome = true := by
    simp only [List.mem_dedup, List.forall_mem_map]
  simp only [calculateFee, Outcome.bind_eq_ok, Outcome.ensure_eq_ok, decide_eq_true_eq,
    Outcome.ofOption_eq_ok, Amount.ofNat?_eq_some]
  constructor
  · rintro ⟨sum, hsum, _, hlt, hfee⟩
    obtain ⟨hknown, hcharged⟩ := (foldlM_addFee (by omega)).mp hsum
    have hsame : sum = charged keysets proofs := hcharged.trans (Nat.zero_add _)
    subst hsame
    exact ⟨hids.mp hknown, hlt, hfee⟩
  · rintro ⟨hknown, hlt, hfee⟩
    refine ⟨charged keysets proofs, ?_, (), hlt, hfee⟩
    exact (foldlM_addFee (by omega)).mpr ⟨hids.mpr hknown, (Nat.zero_add _).symm⟩

/-- The mint's fee is the fee, as its keysets are looked up twice. -/
theorem getProofsFee_eq_ok :
    getProofsFee keysets proofs = .ok fee ↔ calculateFee keysets proofs = .ok fee := by
  simp only [getProofsFee, Outcome.bind_eq_ok, Outcome.forM_eq_ok]
  constructor
  · rintro ⟨_, -, hfee⟩
    exact hfee
  · intro hfee
    refine ⟨(), fun p hp => ?_, hfee⟩
    obtain ⟨keyset, hkeyset⟩ := Option.isSome_iff_exists.mp ((calculateFee_eq_ok.mp hfee).1 p hp)
    exact ⟨keyset, Outcome.ofOption_eq_ok.mpr hkeyset, rfl⟩

/-- The order of the proofs does not matter. -/
theorem charged_perm (h : proofs.Perm proofs') :
    charged keysets proofs = charged keysets proofs' := by
  have hby : chargedBy keysets proofs = chargedBy keysets proofs' := by
    funext id
    rw [chargedBy, h.countP_eq, chargedBy]
  rw [charged, charged, hby]
  exact (((h.map Proof.keysetId).dedup).map _).sum_eq

theorem getProofsFee_perm (h : proofs.Perm proofs') :
    getProofsFee keysets proofs = .ok fee ↔ getProofsFee keysets proofs' = .ok fee := by
  simp only [getProofsFee_eq_ok, calculateFee_eq_ok, charged_perm h, h.mem_iff]

/-- Only the fees of the keysets of the proofs matter. -/
theorem getProofsFee_congr (h : ∀ p ∈ proofs, (keysets.info p.keysetId).map KeySet.inputFeePpk =
      (keysets'.info p.keysetId).map KeySet.inputFeePpk) :
    getProofsFee keysets proofs = .ok fee ↔ getProofsFee keysets' proofs = .ok fee := by
  have hknown : (∀ p ∈ proofs, (keysets.info p.keysetId).isSome = true) ↔
      ∀ p ∈ proofs, (keysets'.info p.keysetId).isSome = true := by
    apply forall₂_congr
    intro p hp
    have := congrArg Option.isSome (h p hp)
    rw [Option.isSome_map, Option.isSome_map] at this
    rw [this]
  have hcharged : charged keysets proofs = charged keysets' proofs := by
    apply congrArg List.sum
    apply List.map_congr_left
    intro id hid
    obtain ⟨p, hp, rfl⟩ := List.mem_map.mp (List.mem_dedup.mp hid)
    rw [chargedBy, h p hp, chargedBy]
  rw [getProofsFee_eq_ok, getProofsFee_eq_ok, calculateFee_eq_ok, calculateFee_eq_ok, hknown,
    hcharged]

/-- Only the keysets of proofs matter for their fee. -/
theorem getProofsFee_of_ids (h : proofs.map Proof.keysetId = proofs'.map Proof.keysetId) :
    getProofsFee keysets proofs = .ok fee ↔ getProofsFee keysets proofs' = .ok fee := by
  have hcount (proofs : List Proof) (id : Id) : (proofs.countP fun p => p.keysetId = id) =
      (proofs.map Proof.keysetId).countP fun other => other = id := by
    rw [List.countP_map]
    rfl
  have hby : chargedBy keysets proofs = chargedBy keysets proofs' := by
    funext id
    rw [chargedBy, hcount, h, ← hcount, chargedBy]
  have hcharged : charged keysets proofs = charged keysets proofs' := by
    rw [charged, charged, hby, h]
  have hknown : (∀ p ∈ proofs, (keysets.info p.keysetId).isSome = true) ↔
      ∀ p ∈ proofs', (keysets.info p.keysetId).isSome = true := by
    have hforall (proofs : List Proof) :
        (∀ p ∈ proofs, (keysets.info p.keysetId).isSome = true) ↔
          ∀ id ∈ proofs.map Proof.keysetId, (keysets.info id).isSome = true := by
      rw [List.forall_mem_map]
    rw [hforall, h, ← hforall]
  rw [getProofsFee_eq_ok, getProofsFee_eq_ok, calculateFee_eq_ok, calculateFee_eq_ok, hknown,
    hcharged]

/-- Without fees nothing is charged. -/
theorem getProofsFee_free (hknown : ∀ p ∈ proofs, (keysets.info p.keysetId).isSome = true)
    (hfree : ∀ keyset ∈ keysets, keyset.inputFeePpk = 0) :
    getProofsFee keysets proofs = .ok .zero := by
  have hby : ∀ id ∈ (proofs.map Proof.keysetId).dedup, chargedBy keysets proofs id = 0 := by
    intro id _
    unfold chargedBy
    cases hinfo : keysets.info id with
    | none => simp
    | some keyset => simp [hfree keyset (List.mem_of_find?_eq_some hinfo)]
  have hcharged : charged keysets proofs = 0 :=
    List.sum_eq_zero fun x hx => by
      obtain ⟨id, hid, rfl⟩ := List.mem_map.mp hx
      exact hby id hid
  rw [getProofsFee_eq_ok, calculateFee_eq_ok, hcharged]
  exact ⟨hknown, by decide, rfl⟩

/-- A single proof is charged the fee of its keyset. -/
theorem getProofsFee_singleton {p : Proof} {keyset : KeySet}
    (h : keysets.info p.keysetId = some keyset) (hlt : keyset.inputFeePpk + 999 < 2 ^ 64) :
    ∃ fee, getProofsFee keysets [p] = .ok fee ∧ fee.toNat = (keyset.inputFeePpk + 999) / 1000 := by
  have hcharged : charged keysets [p] = keyset.inputFeePpk := by
    have hcount : [p].countP (fun q => q.keysetId = p.keysetId) = 1 := by simp
    have hids : ([p].map Proof.keysetId).dedup = [p.keysetId] :=
      (List.nodup_singleton p.keysetId).dedup
    rw [charged, hids, List.map_singleton, List.sum_singleton, chargedBy, h, hcount,
      Option.map_some, Option.getD_some]
    omega
  refine ⟨⟨(keyset.inputFeePpk + 999) / 1000, by omega⟩, ?_, rfl⟩
  rw [getProofsFee_eq_ok, calculateFee_eq_ok, hcharged]
  refine ⟨fun q hq => ?_, hlt, rfl⟩
  rw [List.mem_singleton.mp hq, h]
  rfl

end Fees

end Cdk
