import Cdk.Wallet.GreedySelection

/-!
# Sufficient selections

The search for the halves of an amount doubles its counter. With a counter
without a bound the selection without fees is worth the amount for all keysets
that can split it, and it is made whenever the sum of all proofs is an amount
that covers it.
-/

namespace Cdk

open Lib

namespace Selection

/-- `Wallet::select_proofs` without fees, with a counter that does not wrap. -/
def selectProofsUnbounded (order : HashOrder) (amount : Amount) (proofs : List Proof)
    (activeKeysetIds : List Id) (fees : KeysetFeeAndAmounts) : Outcome Error (List Proof) :=
  selectFromBy order
    (fun proofs inactive => chooseProofsBy (· * 2) order amount proofs inactive fees)
    amount proofs activeKeysetIds

section Sufficient

variable {order : HashOrder} {amount : Amount} {proofs chosen : List Proof}
  {activeKeysetIds : List Id} {fees : KeysetFeeAndAmounts}

theorem suffices_unbounded (hsome : fees.entries.rows ≠ [])
    (hfees : ∀ entry ∈ fees.entries.rows,
      ∃ n, PowersBelow n entry.2.amounts ∧ amount.toNat < 2 ^ n)
    (hpower : ∀ p ∈ proofs, ∃ j, p.amount.toNat = 2 ^ j) :
    Suffices (· * 2) fees amount (sortDescending proofs)
      (inactiveProofs activeKeysetIds (sortDescending proofs)) := by
  apply Suffices.of_denominations (descending_sortDescending proofs)
  · intro entry hentry
    exact (hfees entry hentry).imp fun _ hn => hn.1
  · obtain ⟨entry, hentry⟩ := List.exists_mem_of_ne_nil _ hsome
    exact ⟨entry, hentry, hfees entry hentry⟩
  · intro entry hentry a ha
    obtain ⟨n, hpowers, -⟩ := hfees entry hentry
    obtain ⟨k, -, hk⟩ := hpowers.mem ha
    apply adds_unbounded (descending_sortDescending proofs) _ ⟨k, hk⟩
    exact fun p hp => hpower p ((sortDescending_perm proofs).mem_iff.mp hp)

/-- For all distinct proofs with powers of two and all keysets that can split the amount: a
selection is made exactly if the proofs are worth the amount and their sum does not overflow, and
it takes no proof twice and is worth the amount. -/
theorem selectProofsUnbounded_iff (hnodup : proofs.Nodup)
    (hpower : ∀ p ∈ proofs, ∃ j, p.amount.toNat = 2 ^ j) (hpos : amount ≠ .zero)
    (hsome : fees.entries.rows ≠ [])
    (hfees : ∀ entry ∈ fees.entries.rows,
      ∃ n, PowersBelow n entry.2.amounts ∧ amount.toNat < 2 ^ n) :
    ((∃ chosen, selectProofsUnbounded order amount proofs activeKeysetIds fees = .ok chosen) ↔
        amount.toNat ≤ worth proofs ∧ worth proofs < 2 ^ 64) ∧
      ∀ chosen, selectProofsUnbounded order amount proofs activeKeysetIds fees = .ok chosen →
        Picked proofs chosen ∧ amount.toNat ≤ worth chosen := by
  have hperm := sortDescending_perm proofs
  have hsorted := descending_sortDescending proofs
  have hdistinct := hperm.nodup_iff.mpr hnodup
  have hsuffices : Suffices (· * 2) fees amount (sortDescending proofs)
      (inactiveProofs activeKeysetIds (sortDescending proofs)) :=
    suffices_unbounded hsome hfees hpower
  have hinactive := Picked.inactiveProofs activeKeysetIds (sortDescending proofs)
  have hworth := worth_perm hperm
  unfold selectProofsUnbounded
  simp only [selectFromBy_eq_ok hpos]
  constructor
  · constructor
    · rintro ⟨_, hle, hlt, -⟩
      exact ⟨hle, hlt⟩
    · rintro ⟨hle, hlt⟩
      by_cases hearly : amount.toNat ≤ worth (inactiveProofs activeKeysetIds proofs)
      · exact ⟨_, hle, hlt, by rw [if_pos hearly]⟩
      · obtain ⟨chosen, hchosen⟩ : ∃ chosen, chooseProofsBy (· * 2) order amount
            (sortDescending proofs) (inactiveProofs activeKeysetIds (sortDescending proofs)) fees =
              .ok chosen :=
          exists_chooseProofsBy hsuffices hdistinct (hworth.symm ▸ hle) (hworth.symm ▸ hlt)
            hinactive hsorted
        exact ⟨chosen, hle, hlt, by rw [if_neg hearly, hchosen]⟩
  · rintro chosen ⟨hle, hlt, h⟩
    split at h
    next hearly =>
      subst h
      refine ⟨(hinactive.perm (order.perm _)).of_perm hperm, ?_⟩
      rw [worth_perm (order.perm _), worth_perm (inactiveProofs_perm _ hperm)]
      exact hearly
    next =>
      refine ⟨(hinactive.chooseProofsBy h).of_perm hperm, ?_⟩
      exact le_worth_chooseProofsBy hsuffices hdistinct (hworth.symm ▸ hle) hinactive hsorted h

/-- Three is covered by a proof of four. -/
theorem selectProofsUnbounded_iff_four :
    ∃ chosen, selectProofsUnbounded insertionOrder 3 [sampleProof 4 "a"] [.v1 1] feeMap =
      .ok chosen ∧ (3 : Amount).toNat ≤ worth chosen := by
  have hfees : ∀ entry ∈ feeMap.entries.rows,
      ∃ n, PowersBelow n entry.2.amounts ∧ (3 : Amount).toNat < 2 ^ n :=
    List.forall_mem_singleton.mpr ⟨4, rfl, by decide⟩
  have hpower : ∀ p ∈ [sampleProof 4 "a"], ∃ j, p.amount.toNat = 2 ^ j :=
    List.forall_mem_singleton.mpr ⟨2, rfl⟩
  obtain ⟨hmade, hchosen⟩ := @selectProofsUnbounded_iff insertionOrder 3 [sampleProof 4 "a"]
    [.v1 1] feeMap (List.nodup_singleton _) hpower (by decide) (List.cons_ne_nil _ _) hfees
  obtain ⟨chosen, h⟩ := hmade.mpr (by decide +kernel)
  exact ⟨chosen, h, (hchosen chosen h).2⟩

/-- Two proofs of 2^63 are worth more than one, and their sum is not an amount. -/
theorem selectProofsUnbounded_overflow : ¬ ∀ (order : HashOrder) (amount : Amount)
    (proofs : List Proof) (activeKeysetIds : List Id) (fees : KeysetFeeAndAmounts),
    proofs.Nodup → (∀ p ∈ proofs, ∃ j, p.amount.toNat = 2 ^ j) → amount ≠ .zero →
    fees.entries.rows ≠ [] →
    (∀ entry ∈ fees.entries.rows, ∃ n, PowersBelow n entry.2.amounts ∧ amount.toNat < 2 ^ n) →
    ((∃ chosen, selectProofsUnbounded order amount proofs activeKeysetIds fees = .ok chosen) ↔
      amount.toNat ≤ worth proofs) := by
  intro h
  let proofs := [sampleProof 9223372036854775808 "a", sampleProof 9223372036854775808 "b"]
  have hfees : ∀ entry ∈ feeMap.entries.rows,
      ∃ n, PowersBelow n entry.2.amounts ∧ (1 : Amount).toNat < 2 ^ n :=
    List.forall_mem_singleton.mpr ⟨4, rfl, by decide⟩
  have hpower : ∀ p ∈ proofs, ∃ j, p.amount.toNat = 2 ^ j :=
    List.forall_mem_cons.mpr ⟨⟨63, rfl⟩, List.forall_mem_singleton.mpr ⟨63, rfl⟩⟩
  obtain ⟨chosen, hchosen⟩ := (h insertionOrder 1 proofs [.v1 1] feeMap (by decide +kernel) hpower
    (by decide) (List.cons_ne_nil _ _) hfees).mpr (by decide +kernel)
  have hlt := ((selectFromBy_eq_ok (by decide)).mp hchosen).2.1
  exact absurd hlt (by decide +kernel)

end Sufficient

end Selection

end Cdk
