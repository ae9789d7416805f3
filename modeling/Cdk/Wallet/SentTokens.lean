import Cdk.Wallet.Candidates
import Cdk.Wallet.Send

/-!
# What a sent token is worth

The fee of a token is planned from the parts of `split_with_fee`. The token
itself consists of selected proofs, which need not be these parts, or of proofs
at hand and of the parts of what is missing, which may be more. So the plan
decides what the receiver keeps.
-/

namespace Cdk

open Lib

namespace Wallet

open Selection (worth Meets Candidate NeedsActive Searching Searchable Selectable Refused)

/-! ## Swaps for a send -/

section Swaps

variable (w : Wallet)

/-- The mint signs every output for its amount and its keyset. -/
def Signs : Prop :=
  ∀ request signatures, w.postSwap request = .ok signatures →
    signatures.map BlindSignature.amount = request.outputs.map BlindedMessage.amount ∧
      signatures.map BlindSignature.keysetId = request.outputs.map BlindedMessage.keysetId

variable {w} {id : Id} {fee : Nat} {denominations : List Amount}

end Swaps

/-! ## Sends -/

section Sends

/-- The selected proofs that are sent as they are, and those that are swapped. -/
def partSelected (amount : Amount) (maxProofs : Option Nat) (selected : List Proof)
    (parts : List Amount) (sendFee : Amount) : List Proof × List Proof :=
  if worth selected = amount.toNat + sendFee.toNat ∧ maxProofs.all (selected.length ≤ ·) then
    (selected, [])
  else takeParts parts selected

/-- A proof for every part. -/
def outputs (id : Id) (parts : List Amount) : List Proof :=
  parts.map fun part => ⟨part, id, "", ⟨false, 0⟩, none⟩

variable (w : Wallet) (order feeOrder : Selection.HashOrder) (amount : Amount)
  (maxProofs : Option Nat) (s : Store)

variable {w order feeOrder amount maxProofs s} {id : Id} {fee : Nat} {denominations : List Amount}
  {s₁ s₂ : Store} {prepared : PreparedSend} {token : List Proof}

/-- If nothing is swapped the selected proofs cover the amount and their own fee; otherwise the
planned fee covers that of the proofs at hand and of the parts of what is missing. -/
def FeeCovers (w : Wallet) (id : Id) (denominations : List Amount) (amount sendFee : Amount)
    (parted : List Proof × List Proof) : Prop :=
  if parted.2 = [] then Meets w.keysets amount parted.1
  else
    let missing := amount.toNat + sendFee.toNat - worth parted.1
    ∃ fee, Cdk.getProofsFee w.keysets
        (parted.1 ++ outputs id (splitParts denominations.reverse missing)) = .ok fee ∧
      fee ≤ sendFee

variable (w amount maxProofs s id fee denominations)

/-- The parts of the amount with its fee, and the fee of as many proofs. -/
structure SplitPlan (parts : List Amount) (sendFee : Amount) : Prop where
  split : Counters.splitWithFee amount ⟨fee, denominations⟩ = .ok parts
  charged : w.getProofsFeeByCount id parts.length = .ok sendFee

/-- A selection whose proofs at hand are worth no more than the amount and the planned fee if any
others are swapped, and whose token is covered. -/
def TokenCovered (parts : List Amount) (sendFee : Amount) (selected : List Proof) : Prop :=
  ((partSelected amount maxProofs selected parts sendFee).2 ≠ [] →
      worth (partSelected amount maxProofs selected parts sendFee).1 ≤
        amount.toNat + sendFee.toNat) ∧
    FeeCovers w id denominations amount sendFee
      (partSelected amount maxProofs selected parts sendFee)

/-- Whatever can be selected of the unspent proofs pays its fee, or is refused, where proofs of
active keysets are needed for the amount, and makes a covered token with the planned parts. -/
structure SendPlanned : Prop where
  searched : ∀ fees ids, w.keysetFeesAndAmounts = .ok fees → w.activeKeysetIds = .ok ids →
    Selectable amount (w.getProofsWith [.unspent] none s) ids fees →
      Searching amount (w.getProofsWith [.unspent] none s) ids fees →
        Searchable amount (w.getProofsWith [.unspent] none s) ids fees ∧
          ∀ p ∈ w.getProofsWith [.unspent] none s, ∃ k, p.amount.toNat = 2 ^ k
  paid : ∀ fees ids, w.keysetFeesAndAmounts = .ok fees → w.activeKeysetIds = .ok ids →
    Selectable amount (w.getProofsWith [.unspent] none s) ids fees →
      NeedsActive amount (w.getProofsWith [.unspent] none s) ids → ∀ selected,
        Candidate amount (w.getProofsWith [.unspent] none s) ids fees selected →
          Meets fees.keysets amount selected ∨
            Refused amount (w.getProofsWith [.unspent] none s) fees selected
  covered : ∀ fees ids parts sendFee, w.keysetFeesAndAmounts = .ok fees →
    w.activeKeysetIds = .ok ids → SplitPlan w amount id fee denominations parts sendFee →
      (amount ≠ .zero → Selectable amount (w.getProofsWith [.unspent] none s) ids fees) →
        ∀ selected, Candidate amount (w.getProofsWith [.unspent] none s) ids fees selected →
          (NeedsActive amount (w.getProofsWith [.unspent] none s) ids →
            Meets fees.keysets amount selected) →
              TokenCovered w amount maxProofs id denominations parts sendFee selected

variable {w amount maxProofs s id fee denominations}

/-- What a planned send selects with fees is a candidate that pays its fee. -/
theorem SendPlanned.selected (h : SendPlanned w amount maxProofs s id fee denominations)
    (hdistinct : (w.getProofsWith [.unspent] none s).Nodup)
    {fees : Selection.KeysetFeeAndAmounts} {ids : List Id} {selected : List Proof}
    (hfees : w.keysetFeesAndAmounts = .ok fees) (hids : w.activeKeysetIds = .ok ids)
    (hselected : Selection.selectProofs order feeOrder amount (w.getProofsWith [.unspent] none s)
      ids fees true = .ok selected) :
    (amount ≠ .zero → Selectable amount (w.getProofsWith [.unspent] none s) ids fees) ∧
      Candidate amount (w.getProofsWith [.unspent] none s) ids fees selected ∧
        (NeedsActive amount (w.getProofsWith [.unspent] none s) ids →
          Meets fees.keysets amount selected) := by
  obtain ⟨chosen, hchosen, hsettles, rfl⟩ := (Selection.selectProofs_eq_ok hdistinct).mp hselected
  have hselectable (hzero : amount ≠ .zero) :
      Selectable amount (w.getProofsWith [.unspent] none s) ids fees :=
    Selection.selectable_of_ok hzero hchosen
  have hcandidate : Candidate amount (w.getProofsWith [.unspent] none s) ids fees chosen :=
    Selection.candidate_selectProofs hdistinct (fun hsearching =>
      h.searched fees ids hfees hids (hselectable hsearching.1.amount_ne) hsearching) hchosen
  have hpaid : NeedsActive amount (w.getProofsWith [.unspent] none s) ids →
      Meets fees.keysets amount chosen := by
    intro hneeds
    have hsettles := hsettles.resolve_left (Nat.not_le_of_lt hneeds)
    apply (h.paid fees ids hfees hids (hselectable hneeds.amount_ne) hneeds chosen
      hcandidate).resolve_right
    exact fun hrefused => absurd hsettles.2 (Nat.not_le_of_lt hrefused.2)
  rw [Selection.settled_of_candidate hcandidate hpaid]
  exact ⟨hselectable, hcandidate, hpaid⟩

/-- An unspent proof whose secret has the length. -/
def unspentInfo (amount : Amount) (secret : String) (length : Nat) : ProofInfo :=
  ⟨⟨inputProof amount secret, none⟩, ⟨false, BitVec.ofNat 256 length⟩, "https://mint.example",
    .unspent, none, .sat⟩

end Sends

end Wallet

end Cdk
