import Cdk.Wallet.ExactSplits
import Cdk.Wallet.Operations

/-!
# Swaps of the wallet

The outputs of a swap are the parts of the amount to send and of the change, in
one sorted list. When they come back as proofs, the wallet splits the amount
once more, now by the target that it was called with and without the fee for
redeeming, and sends the proofs that it finds for these parts.
-/

namespace Cdk

open Lib

namespace Wallet

open Selection (worth)

/-! ## Giving out the proofs -/

/-- The loop that sends a proof for every part and keeps the others. -/
def takeParts : List Amount → List Proof → List Proof × List Proof
  | _, [] => ([], [])
  | amountSplit, proof :: rest =>
      if proof.amount ∈ amountSplit then
        let (send, keep) := takeParts (amountSplit.erase proof.amount) rest
        (proof :: send, keep)
      else
        let (send, keep) := takeParts amountSplit rest
        (send, proof :: keep)

section Operations

variable (w : Wallet)

/-- A round of the loop of `construct_proofs`. -/
def constructProof (keys : Amount → Option PublicKey) (promise : BlindSignature) (r : BitVec 256)
    (secret : String) : Outcome Error Proof := do
  let a ← Outcome.ofOption .noKey (keys promise.amount)
  let c ← Outcome.ofOption (.cdk .dhke) (w.unblind promise.c r a)
  .ok ⟨promise.amount, promise.keysetId, secret, c, none⟩

/-- `construct_proofs`. -/
def constructProofs (promises : List BlindSignature) (rs : List (BitVec 256))
    (secrets : List String) (keys : Amount → Option PublicKey) : Outcome Error (List Proof) :=
  if promises.length ≠ rs.length ∨ promises.length ≠ secrets.length then .err .lengths
  else ((promises.zip rs).zip secrets).mapM fun entry =>
    w.constructProof keys entry.1.1 entry.1.2 entry.2

/-- What is sent and what is kept of the new proofs. Without conditions only the proofs without
them are given out. The sum is compared with the amount and the fee for a warning. -/
def giveOut (call : SwapCall) (fee : Amount) (feeAndAmounts : Counters.FeeAndAmounts)
    (postSwapProofs : List Proof) : Outcome Error (Option (List Proof) × List Proof) :=
  match call.amount with
  | some amount => do
      let (proofsWithCondition, proofsWithoutCondition) :=
        postSwapProofs.partition fun p => (w.env.parseSecret p.secret).isSome
      let (proofsToSend, proofsToKeep) ← match call.conditions with
        | some _ => Outcome.ok (proofsWithCondition, proofsWithoutCondition)
        | none => do
            let amountSplit ← w.splitTargeted amount call.target feeAndAmounts
            .ok (takeParts amountSplit proofsWithoutCondition.reverse)
      let _sendAmount ← total proofsToSend
      let _expected ← amount.add fee
      .ok (some proofsToSend, proofsToKeep)
  | none => .ok (none, postSwapProofs)

/-- What a swap has before it writes it to the store. -/
structure Swapped where
  pre : PreSwap
  feeAndAmounts : Counters.FeeAndAmounts
  constructed : List Proof
  send : Option (List Proof)
  keep : List Proof

/-- `Wallet::swap` up to the new entries of the store. -/
def swapProofs (call : SwapCall) : Proc Store Error Swapped := do
  let _ ← Proc.lift w.refreshKeysets
  let pre ← w.createSwap call
  let signatures ← .lift (w.postSwap pre.swapRequest)
  let feeAndAmounts ← .lift (w.getKeysetFeesAndAmountsById pre.keysetId)
  let constructed ← .lift (w.constructProofs signatures (pre.preMints.map PreMint.r)
    (pre.preMints.map PreMint.secret) (w.keys pre.keysetId))
  let (send, keep) ← .lift (w.giveOut call pre.fee feeAndAmounts constructed)
  pure ⟨pre, feeAndAmounts, constructed, send, keep⟩

/-- `ProofInfo::new` for the mint and the unit of the wallet. -/
def proofInfo (state : State) (proof : Proof) : Outcome Error ProofInfo := do
  let y ← Outcome.ofOption (.cdk .dhke) (proof.y w.env)
  let spendingCondition ← (SpendingConditions.tryFrom w.env proof.secret).toOption
  .ok ⟨⟨proof, none⟩, y, w.mintUrl, state, spendingCondition, w.unit⟩

/-- `Wallet::swap`. -/
def swap (call : SwapCall) : Proc Store Error (Option (List Proof)) := do
  let swapped ← w.swapProofs call
  let sendInfos ← .lift ((swapped.send.getD []).mapM (w.proofInfo .reserved))
  let keepInfos ← .lift (swapped.keep.mapM (w.proofInfo .unspent))
  let deletedYs ← .lift (w.ys call.proofs)
  Proc.write (Store.updateProofs (sendInfos ++ keepInfos) deletedYs)
  pure swapped.send

end Operations

/-- An entry is for the point of its proof and the mint of its wallet. -/
theorem proofInfo_eq_ok {w : Wallet} {state : State} {proof : Proof} {info : ProofInfo}
    (h : w.proofInfo state proof = .ok info) :
    proof.y w.env = some info.y ∧ info.proof.toProof = proof ∧ info.mintUrl = w.mintUrl ∧
      info.state = state := by
  simp only [proofInfo, Outcome.bind_eq_ok, Outcome.ofOption_eq_ok] at h
  obtain ⟨y, hy, condition, -, h⟩ := h
  cases h
  exact ⟨hy, rfl, rfl, rfl⟩

section TakeParts

variable {amountSplit : List Amount} {proofs : List Proof}

/-- Every proof is either sent or kept. -/
theorem takeParts_perm (amountSplit : List Amount) (proofs : List Proof) :
    ((takeParts amountSplit proofs).1 ++ (takeParts amountSplit proofs).2).Perm proofs := by
  induction proofs generalizing amountSplit with
  | nil => exact List.Perm.refl []
  | cons proof rest ih =>
      rw [takeParts]
      split
      · exact (ih _).cons proof
      · exact List.perm_middle.trans ((ih _).cons proof)

/-- The parts are those of the sent proofs and others, which no kept proof has. -/
theorem exists_unmatched (amountSplit : List Amount) (proofs : List Proof) :
    ∃ unmatched, amountSplit.Perm ((takeParts amountSplit proofs).1.map Proof.amount ++ unmatched) ∧
      ∀ p ∈ (takeParts amountSplit proofs).2, p.amount ∉ unmatched := by
  induction proofs generalizing amountSplit with
  | nil => exact ⟨amountSplit, List.Perm.refl _, by simp [takeParts]⟩
  | cons proof rest ih =>
      rw [takeParts]
      split
      next hmem =>
        obtain ⟨unmatched, hperm, hkeep⟩ := ih (amountSplit.erase proof.amount)
        exact ⟨unmatched, (List.perm_cons_erase hmem).trans (hperm.cons _), hkeep⟩
      next hmem =>
        obtain ⟨unmatched, hperm, hkeep⟩ := ih amountSplit
        refine ⟨unmatched, hperm, List.forall_mem_cons.mpr ⟨fun hother => hmem ?_, hkeep⟩⟩
        exact hperm.mem_iff.mpr (List.mem_append_right _ hother)

theorem total_eq_zero {as : List Amount} : Amount.total as = 0 ↔ ∀ a ∈ as, a = .zero := by
  rw [Amount.total, List.sum_eq_zero_iff, List.forall_mem_map]
  exact forall₂_congr fun a _ => ⟨fun h => Amount.ext_toNat h, congrArg Amount.toNat⟩

/-- What is sent is worth at most the parts, and as much exactly if there is a proof for every part
but for those of zero. -/
theorem worth_takeParts (amountSplit : List Amount) (proofs : List Proof) :
    worth (takeParts amountSplit proofs).1 ≤ Amount.total amountSplit ∧
      (worth (takeParts amountSplit proofs).1 = Amount.total amountSplit ↔
        ∀ a, a ≠ .zero → amountSplit.count a ≤ (proofs.map Proof.amount).count a) := by
  obtain ⟨unmatched, hperm, hkeep⟩ := exists_unmatched amountSplit proofs
  have hall := takeParts_perm amountSplit proofs
  generalize takeParts amountSplit proofs = r at hperm hkeep hall
  obtain ⟨send, keep⟩ := r
  dsimp only at hperm hkeep hall ⊢
  have htotal : Amount.total amountSplit = worth send + Amount.total unmatched := by
    rw [Amount.total_perm hperm, Amount.total_append, worth]
  have hsplit (a : Amount) :
      amountSplit.count a = (send.map Proof.amount).count a + unmatched.count a := by
    rw [hperm.count_eq, List.count_append]
  have hproofs (a : Amount) : (proofs.map Proof.amount).count a =
      (send.map Proof.amount).count a + (keep.map Proof.amount).count a := by
    rw [← (hall.map Proof.amount).count_eq, List.map_append, List.count_append]
  refine ⟨by omega, ?_⟩
  have hzero : worth send = Amount.total amountSplit ↔ ∀ a ∈ unmatched, a = .zero := by
    rw [← total_eq_zero]
    omega
  rw [hzero]
  constructor
  · intro hnone a ha
    have hcount : unmatched.count a = 0 := List.count_eq_zero.mpr fun hmem => ha (hnone a hmem)
    rw [hsplit, hproofs, hcount]
    exact Nat.le_add_right _ _
  · intro hcounts a hmem
    by_contra ha
    have hle := hcounts a ha
    have hkept : (keep.map Proof.amount).count a = 0 := by
      apply List.count_eq_zero.mpr
      rintro hother
      obtain ⟨p, hp, rfl⟩ := List.mem_map.mp hother
      exact hkeep p hp hmem
    have hpositive := List.count_pos_iff.mpr hmem
    rw [hsplit, hproofs, hkept] at hle
    omega

end TakeParts

/-! ## Splits -/

section Splits

variable {denominations parts : List Amount} {amount : Amount} {target : Counters.SplitTarget}
  {rounds fee : Nat}

/-- The parts of a value so far are worth their total, which is at most the amount. -/
def WithinAmount (amount : Amount) (acc : List Amount × Amount) : Prop :=
  acc.2.toNat = Amount.total acc.1 ∧ acc.2.toNat ≤ amount.toNat

theorem withinAmount_addValueParts {acc last : List Amount × Amount}
    (hacc : WithinAmount amount acc)
    (h : Counters.addValueParts amount denominations parts acc = .ok last) :
    WithinAmount amount last := by
  induction parts generalizing acc with
  | nil =>
      cases h
      exact hacc
  | cons part rest ih =>
      obtain ⟨soFar, partsTotal⟩ := acc
      obtain ⟨htotal, hle⟩ := hacc
      dsimp only at htotal hle
      have hlater {more : List Amount} (hwithin : Amount.total more ≤ amount.toNat)
          (h : (Outcome.ofOption .amountOverflow (Amount.trySum more) >>= fun partsTotal =>
            if partsTotal = amount then .ok (more, partsTotal)
            else Counters.addValueParts amount denominations rest (more, partsTotal)) = .ok last) :
          WithinAmount amount last := by
        simp only [Outcome.bind_eq_ok, Outcome.ofOption_eq_ok, Amount.trySum_eq_some] at h
        obtain ⟨moreTotal, hmoreTotal, h⟩ := h
        have hnow : WithinAmount amount (more, moreTotal) := ⟨hmoreTotal, hmoreTotal ▸ hwithin⟩
        split at h
        · cases h
          exact hnow
        · exact ih hnow h
      simp only [Counters.addValueParts, Amount.add, Outcome.bind_eq_ok, Outcome.expect_eq_ok,
        Amount.checkedAdd_eq_some] at h
      obtain ⟨next, hnext, h⟩ := h
      split at h
      next hfits =>
        have hfits : next.toNat ≤ amount.toNat := hfits
        apply hlater _ h
        rw [Amount.total_append, Amount.total_cons, Amount.total_nil]
        omega
      next =>
        simp only [Amount.sub, Outcome.bind_eq_ok, Outcome.expect_eq_ok,
          Amount.checkedSub_eq_some] at h
        obtain ⟨amountLeft, hleft, others, hothers, h⟩ := h
        have hsplit := Amount.total_split_le hothers
        obtain ⟨more, hmore, h⟩ := h
        cases hmore
        apply hlater _ (Outcome.bind_eq_ok.mpr h)
        rw [Amount.total_append]
        omega

theorem total_fillValue_le {partsOfValue : List Amount} {acc : List Amount × Amount}
    (hacc : WithinAmount amount acc)
    (h : Counters.fillValue amount denominations partsOfValue rounds acc = .ok parts) :
    Amount.total parts ≤ amount.toNat := by
  induction rounds generalizing acc with
  | zero => cases h
  | succ rounds ih =>
      rw [Counters.fillValue] at h
      split at h
      · rw [Outcome.bind_eq_ok] at h
        obtain ⟨next, hnext, h⟩ := h
        exact ih (withinAmount_addValueParts hacc hnext) h
      · cases h
        exact hacc.1 ▸ hacc.2

/-- The parts by a target are never worth more than the amount. -/
theorem total_splitTargeted_le
    (h : Counters.splitTargeted rounds amount target ⟨fee, denominations⟩ = .ok parts) :
    Amount.total parts ≤ amount.toNat := by
  cases target with
  | none =>
      rw [Counters.splitTargeted, Outcome.bind_eq_ok] at h
      obtain ⟨split, hsplit, h⟩ := h
      cases h
      rw [Counters.total_sortAmounts]
      exact Amount.total_split_le hsplit
  | value value =>
      rw [Counters.splitTargeted] at h
      split at h
      · exact Amount.total_split_le h
      · simp only [Outcome.bind_eq_ok] at h
        obtain ⟨partsOfValue, -, filled, hfilled, h⟩ := h
        cases h
        rw [Counters.total_sortAmounts]
        exact total_fillValue_le ⟨rfl, Nat.zero_le _⟩ hfilled
  | values values =>
      simp only [Counters.splitTargeted, Outcome.bind_eq_ok, Outcome.ofOption_eq_ok,
        Amount.trySum_eq_some] at h
      obtain ⟨valuesTotal, hvalues, h⟩ := h
      split_ifs at h with hless heq
      · cases h
        rw [Counters.total_sortAmounts, ← hvalues, heq]
      · simp only [Amount.sub, Outcome.bind_eq_ok, Outcome.expect_eq_ok,
          Amount.checkedSub_eq_some] at h
        obtain ⟨extra, hextra, extraAmount, hsplit, h⟩ := h
        have hle := Amount.total_split_le hsplit
        cases h
        rw [Counters.total_sortAmounts, Amount.total_append]
        omega

end Splits

/-! ## The outputs -/

section Outputs

/-- The amounts of a swap and their parts. -/
structure SwapParts where
  feeAndAmounts : Counters.FeeAndAmounts
  sendAmount : Option Amount
  change : Amount
  sendParts : List Amount
  changeParts : List Amount
deriving DecidableEq, Repr

variable (w : Wallet)

/-- The amounts that `create_swap` works out without conditions. -/
def swapParts (call : SwapCall) (s : Store) : Outcome Error SwapParts := do
  let (activeKeysetId, proofsTotal, ys) ← w.beforeReserving call
  let fee ← w.getProofsFee call.proofs
  let change ← changeAmount call.amount proofsTotal fee
  let feeAndAmounts ← w.getKeysetFeesAndAmountsById activeKeysetId
  let (sendAmount, change) ←
    w.sendAndChange call.includeFees activeKeysetId call.amount change feeAndAmounts
  let target ← w.changeSplitTarget call.target change feeAndAmounts
    (s.updateProofsState ys .reserved)
  let sendParts ← w.splitTargeted (sendAmount.getD .zero) .none feeAndAmounts
  let changeParts ← w.splitTargeted change target feeAndAmounts
  .ok ⟨feeAndAmounts, sendAmount, change, sendParts, changeParts⟩

variable {w : Wallet} {call : SwapCall} {id : Id} {counter : Nat} {amounts : List Amount}
  {preMints : List PreMint} {pre : PreSwap} {s s' : Store}

/-- A pre-mint of a keyset from the seed for its amount. -/
structure PreMint.Seeded (id : Id) (p : PreMint) : Prop where
  message : p.blindedMessage.amount = p.amount
  keyset : p.blindedMessage.keysetId = id
  secret : ∃ n, p.secret = hexDigits 64 n

theorem deriveAll_spec (h : w.deriveAll id counter amounts = .ok preMints) :
    preMints.map PreMint.amount = amounts ∧ ∀ p ∈ preMints, p.Seeded id := by
  induction amounts generalizing counter preMints with
  | nil =>
      cases h
      exact ⟨rfl, by simp⟩
  | cons amount rest ih =>
      simp only [deriveAll, preMint, seedSecret, Outcome.bind_eq_ok, Outcome.ofOption_eq_ok,
        Option.map_eq_some_iff] at h
      obtain ⟨first, ⟨_, ⟨drawn, -, rfl⟩, blinded, -, hfirst⟩, next, -, others, hothers, h⟩ := h
      cases hfirst
      cases h
      obtain ⟨hamounts, hseeded⟩ := ih hothers
      refine ⟨congrArg (amount :: ·) hamounts, List.forall_mem_cons.mpr ⟨?_, hseeded⟩⟩
      exact ⟨rfl, rfl, drawn.1.toNat, rfl⟩

theorem preMintsFromSeed_spec {amount : Amount} {target : Counters.SplitTarget}
    {feeAndAmounts : Counters.FeeAndAmounts}
    (h : w.preMintsFromSeed id counter amount target feeAndAmounts = .ok preMints) :
    w.splitTargeted amount target feeAndAmounts = .ok (preMints.map PreMint.amount) ∧
      ∀ p ∈ preMints, p.Seeded id := by
  rw [preMintsFromSeed, Outcome.bind_eq_ok] at h
  obtain ⟨parts, hparts, h⟩ := h
  obtain ⟨rfl, hseeded⟩ := deriveAll_spec h
  exact ⟨hparts, hseeded⟩

/-- The fee for redeeming, if it is included. -/
def redeemed (w : Wallet) (call : SwapCall) (id : Id) (feeAndAmounts : Counters.FeeAndAmounts) :
    Outcome Error Amount :=
  if call.includeFees then w.feeToRedeem id call.amount feeAndAmounts else .ok .zero

/-- Nothing has no parts. -/
theorem split_zero {ε : Type} {denominations parts : List Amount}
    (h : (Amount.zero.split denominations : Outcome ε (List Amount)) = .ok parts) : parts = [] := by
  by_cases hany : denominations.any (fun d => d.toNat = 0)
  · rw [Amount.split, if_pos hany] at h
    cases h
  · have hpos : ∀ d ∈ denominations, 0 < d.toNat := fun d hd =>
      Nat.pos_of_ne_zero fun hzero => hany (List.any_eq_true.mpr ⟨d, hd, decide_eq_true hzero⟩)
    rw [Amount.split_eq _ hpos] at h
    cases h
    exact splitParts_zero fun d hd => hpos d (List.mem_reverse.mp hd)

/-- No fee is charged for redeeming nothing. -/
theorem feeToRedeem_none {feeAndAmounts : Counters.FeeAndAmounts} {redeem : Amount}
    (h : w.feeToRedeem id none feeAndAmounts = .ok redeem) : redeem = .zero := by
  unfold feeToRedeem at h
  split at h
  next parts hsplit =>
    rw [splitTargeted, Outcome.mapErr_eq_ok, Counters.splitTargeted, Outcome.bind_eq_ok] at hsplit
    obtain ⟨unsorted, hunsorted, hsplit⟩ := hsplit
    rw [split_zero hunsorted] at hsplit
    cases hsplit
    rw [getKeysetCountFee, Outcome.mapErr_eq_ok, CountedFees.getKeysetCountFee,
      Outcome.bind_eq_ok] at h
    obtain ⟨ppk, -, h⟩ := h
    rw [CountedFees.wrapping_mul, Counters.sortAmounts, List.insertionSort_nil, Outcome.bind_ok,
      Outcome.expect_eq_ok, Amount.ofNat?_eq_some] at h
    apply Amount.ext_toNat
    rw [h, List.length_nil, Nat.mul_zero]
    rfl
  next => cases h

theorem sendAndChange_spec {sendAmount : Option Amount} {before change : Amount}
    {feeAndAmounts : Counters.FeeAndAmounts}
    (h : w.sendAndChange call.includeFees id call.amount before feeAndAmounts =
      .ok (sendAmount, change)) :
    ∃ redeem, w.redeemed call id feeAndAmounts = .ok redeem ∧
      change.toNat + redeem.toNat = before.toNat ∧
      (call.amount = none → sendAmount = none ∧ redeem = .zero) ∧
      ∀ a, call.amount = some a →
        ∃ more, sendAmount = some more ∧ more.toNat = a.toNat + redeem.toNat := by
  unfold sendAndChange at h
  unfold redeemed
  by_cases hfees : call.includeFees
  · rw [if_pos hfees] at h ⊢
    simp only [Outcome.bind_eq_ok, Outcome.ofOption_eq_ok, Amount.checkedSub_eq_some,
      Outcome.ok.injEq, Prod.mk.injEq] at h
    obtain ⟨redeem, hredeem, sent, hsent, left, hleft, rfl, rfl⟩ := h
    refine ⟨redeem, hredeem, hleft, ?_, ?_⟩
    · intro hnone
      rw [hnone] at hredeem hsent
      cases hsent
      exact ⟨rfl, feeToRedeem_none hredeem⟩
    · intro a ha
      rw [ha] at hsent
      change (Outcome.ofOption _ (a.checkedAdd redeem) >>= fun more => .ok (some more)) =
        .ok sent at hsent
      simp only [Outcome.bind_eq_ok, Outcome.ofOption_eq_ok, Amount.checkedAdd_eq_some] at hsent
      obtain ⟨more, hmore, hsent⟩ := hsent
      cases hsent
      exact ⟨more, rfl, hmore⟩
  · rw [if_neg hfees] at h ⊢
    cases h
    refine ⟨.zero, rfl, rfl, fun hnone => ⟨hnone, rfl⟩, fun a ha => ⟨a, ha, rfl⟩⟩

theorem changeAmount_spec {amount : Option Amount} {proofsTotal fee change : Amount}
    (h : changeAmount amount proofsTotal fee = .ok change) :
    change.toNat + ((amount.getD .zero).toNat + fee.toNat) = proofsTotal.toNat := by
  simp only [changeAmount, Outcome.bind_eq_ok, Outcome.ofOption_eq_ok, Amount.checkedAdd_eq_some,
    Amount.checkedSub_eq_some] at h
  obtain ⟨toSubtract, hadd, hsub⟩ := h
  omega

theorem total_eq_ok {proofs : List Proof} {a : Amount} :
    total proofs = .ok a ↔ a.toNat = worth proofs := by
  rw [total, Outcome.mapErr_eq_ok, Selection.totalAmount_eq_ok]

theorem beforeReserving_spec {proofsTotal : Amount} {ys : List PublicKey}
    (h : w.beforeReserving call = .ok (id, proofsTotal, ys)) :
    w.fetchActiveKeyset = .ok id ∧ proofsTotal.toNat = worth call.proofs ∧
      w.ys call.proofs = .ok ys := by
  simp only [beforeReserving, Outcome.bind_eq_ok, total_eq_ok, Outcome.ok.injEq,
    Prod.mk.injEq] at h
  obtain ⟨_, hid, _, htotal, _, hys, rfl, rfl, rfl⟩ := h
  exact ⟨hid, htotal, hys⟩

/-- What `create_swap` requests: outputs from the seed for the parts, which are worth the inputs
without the fee if nothing is lost in the splits. -/
structure Created (w : Wallet) (call : SwapCall) (pre : PreSwap) (parts : SwapParts) : Prop where
  perm : (pre.preMints.map PreMint.amount).Perm (parts.sendParts ++ parts.changeParts)
  seeded : ∀ p ∈ pre.preMints, p.Seeded pre.keysetId
  requested : pre.swapRequest = ⟨call.proofs, pre.preMints.map PreMint.blindedMessage⟩
  inputs : worth call.proofs =
    (parts.sendAmount.getD .zero).toNat + parts.change.toNat + pre.fee.toNat
  feeAndAmounts : w.getKeysetFeesAndAmountsById pre.keysetId = .ok parts.feeAndAmounts
  sent : ∃ redeem, w.redeemed call pre.keysetId parts.feeAndAmounts = .ok redeem ∧
    ∀ a, call.amount = some a →
      ∃ more, parts.sendAmount = some more ∧ more.toNat = a.toNat + redeem.toNat
  fetched : w.fetchActiveKeyset = .ok pre.keysetId
  split : w.splitTargeted (parts.sendAmount.getD .zero) .none parts.feeAndAmounts =
    .ok parts.sendParts
  sendParts : Amount.total parts.sendParts ≤ (parts.sendAmount.getD .zero).toNat
  changeParts : Amount.total parts.changeParts ≤ parts.change.toNat

/-- The steps of `create_swap` without conditions. -/
theorem createSwap_eq_ok (hconditions : call.conditions = none)
    (h : w.createSwap call s = (.ok pre, s')) :
    ∃ proofsTotal ys before feeAndAmounts sendAmount change target needed start next preMints
      changePreMints,
      w.beforeReserving call = .ok (pre.keysetId, proofsTotal, ys) ∧
      w.getProofsFee call.proofs = .ok pre.fee ∧
      changeAmount call.amount proofsTotal pre.fee = .ok before ∧
      w.getKeysetFeesAndAmountsById pre.keysetId = .ok feeAndAmounts ∧
      w.sendAndChange call.includeFees pre.keysetId call.amount before feeAndAmounts =
        .ok (sendAmount, change) ∧
      w.changeSplitTarget call.target change feeAndAmounts (s.updateProofsState ys .reserved) =
        .ok target ∧
      w.totalSecretsNeeded none sendAmount change target feeAndAmounts = .ok needed ∧
      reserveCounter pre.keysetId needed (s.updateProofsState ys .reserved) = (.ok start, s') ∧
      w.preMintsFromSeed pre.keysetId start (sendAmount.getD .zero) .none feeAndAmounts =
        .ok preMints ∧
      Counters.addCounter start (Counters.asU32 preMints.length) = .ok next ∧
      w.preMintsFromSeed pre.keysetId next change target feeAndAmounts = .ok changePreMints ∧
      pre.preMints = sortSecrets (preMints ++ changePreMints) ∧
      pre.swapRequest = ⟨call.proofs, pre.preMints.map PreMint.blindedMessage⟩ := by
  simp only [createSwap, Proc.lift_bind_ok] at h
  obtain ⟨⟨activeKeysetId, proofsTotal, ys⟩, hbefore, h⟩ := h
  rw [Proc.bind_of_ok (Proc.write_run _ _)] at h
  simp only [behindReserving, Proc.lift_bind_ok] at h
  obtain ⟨fee, hfee, before, hchange, feeAndAmounts, hfeeAndAmounts, ⟨sendAmount, change⟩, hsend,
    h⟩ := h
  dsimp only at h
  rw [Proc.read_bind_ok] at h
  obtain ⟨target, htarget, h⟩ := h
  simp only [hconditions, Proc.lift_bind_ok] at h
  obtain ⟨needed, hneeded, h⟩ := h
  rw [Proc.bind_ok] at h
  obtain ⟨start, s₁, hstart, h⟩ := h
  rw [Proc.lift_bind_ok] at h
  obtain ⟨⟨messages, count⟩, hmessages, h⟩ := h
  simp only [desiredMessages, Outcome.bind_eq_ok, Outcome.mapErr_eq_ok] at hmessages
  obtain ⟨preMints, hpreMints, next, hnext, changePreMints, hchangePreMints, hmessages⟩ := hmessages
  cases hmessages
  cases h
  exact ⟨proofsTotal, ys, before, feeAndAmounts, sendAmount, change, target, needed, start, next,
    preMints, changePreMints, hbefore, hfee, hchange, hfeeAndAmounts, hsend, htarget, hneeded,
    hstart, hpreMints, hnext, hchangePreMints, rfl, rfl⟩

theorem created_of_createSwap (hconditions : call.conditions = none)
    (h : w.createSwap call s = (.ok pre, s')) :
    ∃ parts, w.swapParts call s = .ok parts ∧ Created w call pre parts := by
  obtain ⟨proofsTotal, ys, change, feeAndAmounts, sendAmount, left, target, needed, start, next,
    preMints, changePreMints, hbefore, hfee, hchange, hfeeAndAmounts, hsend, htarget, -, -,
    hpreMints, -, hchangePreMints, hsorted, hrequest⟩ := createSwap_eq_ok hconditions h
  obtain ⟨hsendParts, hseeded⟩ := preMintsFromSeed_spec hpreMints
  obtain ⟨hchangeParts, hchangeSeeded⟩ := preMintsFromSeed_spec hchangePreMints
  obtain ⟨redeem, hredeem, hleft, hnone, hsome⟩ := sendAndChange_spec hsend
  refine ⟨⟨feeAndAmounts, sendAmount, left, preMints.map PreMint.amount,
    changePreMints.map PreMint.amount⟩, ?_, ?_⟩
  · simp only [swapParts, Outcome.bind_eq_ok]
    exact ⟨_, hbefore, pre.fee, hfee, change, hchange, feeAndAmounts, hfeeAndAmounts, _, hsend,
      target, htarget, _, hsendParts, _, hchangeParts, rfl⟩
  · have hsorted : pre.preMints.Perm (preMints ++ changePreMints) :=
      hsorted ▸ List.perm_insertionSort _ _
    constructor
    · rw [← List.map_append]
      exact hsorted.map _
    · intro p hp
      rcases List.mem_append.mp (hsorted.mem_iff.mp hp) with hp | hp
      · exact hseeded p hp
      · exact hchangeSeeded p hp
    · exact hrequest
    · have hbalance := changeAmount_spec hchange
      have htotal := (beforeReserving_spec hbefore).2.1
      cases hamount : call.amount with
      | none =>
          obtain ⟨rfl, rfl⟩ := hnone hamount
          rw [hamount] at hbalance
          change worth call.proofs = 0 + _ + _
          change _ + (0 + _) = _ at hbalance
          change _ + 0 = _ at hleft
          dsimp only
          omega
      | some a =>
          obtain ⟨more, rfl, hmore⟩ := hsome a hamount
          rw [hamount] at hbalance
          change worth call.proofs = more.toNat + _ + _
          change _ + (a.toNat + _) = _ at hbalance
          dsimp only
          omega
    · exact hfeeAndAmounts
    · exact ⟨redeem, hredeem, hsome⟩
    · exact (beforeReserving_spec hbefore).1
    · exact hsendParts
    · exact total_splitTargeted_le (Outcome.mapErr_eq_ok.mp hsendParts)
    · exact total_splitTargeted_le (Outcome.mapErr_eq_ok.mp hchangeParts)

end Outputs

/-! ## What comes back -/

section Returned

variable {w : Wallet} {call : SwapCall} {keys : Amount → Option PublicKey}

/-- Proofs have the amounts and the keysets of the signatures and the secrets of the pre-mints. -/
theorem constructProofs_spec {promises : List BlindSignature} {rs : List (BitVec 256)}
    {secrets : List String} {proofs : List Proof}
    (h : w.constructProofs promises rs secrets keys = .ok proofs) :
    proofs.map Proof.amount = promises.map BlindSignature.amount ∧
      proofs.map Proof.keysetId = promises.map BlindSignature.keysetId ∧
      proofs.map Proof.secret = secrets := by
  unfold constructProofs at h
  split at h
  next => cases h
  next hlengths =>
    obtain ⟨hrs, hsecrets⟩ := not_or.mp hlengths
    have hrs := not_not.mp hrs
    have hsecrets := not_not.mp hsecrets
    have hround (entry : (BlindSignature × BitVec 256) × String) (proof : Proof)
        (hproof : w.constructProof keys entry.1.1 entry.1.2 entry.2 = .ok proof) :
        proof.amount = entry.1.1.amount ∧ proof.keysetId = entry.1.1.keysetId ∧
          proof.secret = entry.2 := by
      simp only [constructProof, Outcome.bind_eq_ok, Outcome.ok.injEq] at hproof
      obtain ⟨a, -, c, -, rfl⟩ := hproof
      exact ⟨rfl, rfl, rfl⟩
    have hpairs : (promises.zip rs).length = secrets.length := by
      rw [List.length_zip, ← hrs, ← hsecrets, Nat.min_self]
    have hfirst {β : Type} (f : BlindSignature → β) :
        ((promises.zip rs).zip secrets).map (fun entry => f entry.1.1) = promises.map f :=
      calc ((promises.zip rs).zip secrets).map (fun entry => f entry.1.1)
        _ = (((promises.zip rs).zip secrets).map Prod.fst).map fun pair => f pair.1 := by
          rw [List.map_map]
          rfl
        _ = ((promises.zip rs).map Prod.fst).map f := by
          rw [List.map_fst_zip hpairs.le, List.map_map]
          rfl
        _ = promises.map f := by rw [List.map_fst_zip hrs.le]
    refine ⟨?_, ?_, ?_⟩
    · rw [← hfirst]
      exact Outcome.map_of_mapM h fun entry proof hproof => (hround entry proof hproof).1
    · rw [← hfirst]
      exact Outcome.map_of_mapM h fun entry proof hproof => (hround entry proof hproof).2.1
    · have htexts : proofs.map Proof.secret = _ :=
        Outcome.map_of_mapM h fun entry proof hproof => (hround entry proof hproof).2.2
      rw [htexts]
      exact List.map_snd_zip hpairs.ge

/-- Without conditions the parts of the amount are taken from the proofs in reverse order. -/
theorem giveOut_spec {fee : Amount} {feeAndAmounts : Counters.FeeAndAmounts}
    {proofs keep : List Proof} {send : Option (List Proof)} (hconditions : call.conditions = none)
    (hplain : ∀ p ∈ proofs, w.env.parseSecret p.secret = none)
    (h : w.giveOut call fee feeAndAmounts proofs = .ok (send, keep)) :
    (call.amount = none ∧ send = none ∧ keep = proofs) ∨
      ∃ a amountSplit, call.amount = some a ∧
        w.splitTargeted a call.target feeAndAmounts = .ok amountSplit ∧
        send = some (takeParts amountSplit proofs.reverse).1 ∧
        keep = (takeParts amountSplit proofs.reverse).2 := by
  have hpartition : proofs.partition (fun p => (w.env.parseSecret p.secret).isSome) =
      ([], proofs) := by
    rw [List.partition_eq_filter_filter, List.filter_eq_nil_iff.mpr, List.filter_eq_self.mpr]
    · intro p hp
      rw [Function.comp_apply, hplain p hp]
      rfl
    · intro p hp
      rw [hplain p hp]
      exact Bool.false_ne_true
  unfold giveOut at h
  cases hamount : call.amount with
  | none =>
      rw [hamount] at h
      cases h
      exact .inl ⟨rfl, rfl, rfl⟩
  | some a =>
      rw [hamount, hpartition, hconditions] at h
      simp only [Outcome.bind_eq_ok, Outcome.ok.injEq, exists_eq_left'] at h
      obtain ⟨amountSplit, hsplit, _, -, _, -, h⟩ := h
      cases h
      exact .inr ⟨a, amountSplit, rfl, hsplit, rfl, rfl⟩

/-- The steps of a swap without conditions. -/
structure Steps (w : Wallet) (call : SwapCall) (s : Store) (swapped : Swapped) (parts : SwapParts)
    (signatures : List BlindSignature) : Prop where
  parted : w.swapParts call s = .ok parts
  created : Created w call swapped.pre parts
  known : swapped.feeAndAmounts = parts.feeAndAmounts
  posted : w.postSwap swapped.pre.swapRequest = .ok signatures
  amounts : swapped.constructed.map Proof.amount = signatures.map BlindSignature.amount
  keysets : swapped.constructed.map Proof.keysetId = signatures.map BlindSignature.keysetId
  given : (call.amount = none ∧ swapped.send = none ∧ swapped.keep = swapped.constructed) ∨
    ∃ a amountSplit, call.amount = some a ∧
      w.splitTargeted a call.target parts.feeAndAmounts = .ok amountSplit ∧
      swapped.send = some (takeParts amountSplit swapped.constructed.reverse).1 ∧
      swapped.keep = (takeParts amountSplit swapped.constructed.reverse).2

theorem swapProofs_spec {s s' : Store} {swapped : Swapped}
    (hplain : ∀ n, w.env.parseSecret (hexDigits 64 n) = none)
    (hconditions : call.conditions = none) (h : w.swapProofs call s = (.ok swapped, s')) :
    ∃ parts signatures, Steps w call s swapped parts signatures := by
  simp only [swapProofs, Proc.lift_bind_ok, Proc.bind_ok (x := w.createSwap call)] at h
  obtain ⟨_, -, pre, s₁, hpre, signatures, hsignatures, feeAndAmounts, hfeeAndAmounts, constructed,
    hconstructed, ⟨send, keep⟩, hgiven, h⟩ := h
  cases h
  obtain ⟨parts, hparts, hcreated⟩ := created_of_createSwap hconditions hpre
  cases hfeeAndAmounts.symm.trans hcreated.feeAndAmounts
  obtain ⟨hamounts, hkeysets, hsecrets⟩ := constructProofs_spec hconstructed
  have hplain : ∀ p ∈ constructed, w.env.parseSecret p.secret = none := by
    intro p hp
    have hmem : p.secret ∈ pre.preMints.map PreMint.secret := hsecrets ▸ List.mem_map_of_mem hp
    obtain ⟨preMint, hpreMint, heq⟩ := List.mem_map.mp hmem
    obtain ⟨n, hn⟩ := (hcreated.seeded preMint hpreMint).secret
    rw [← heq, hn]
    exact hplain n
  exact ⟨parts, signatures, hparts, hcreated, rfl, hsignatures, hamounts, hkeysets,
    giveOut_spec hconditions hplain hgiven⟩

/-- What is sent and kept has the secrets of the request. -/
theorem secrets_of_swapProofs {s s' : Store} {swapped : Swapped}
    (hplain : ∀ n, w.env.parseSecret (hexDigits 64 n) = none)
    (hconditions : call.conditions = none) (h : w.swapProofs call s = (.ok swapped, s')) :
    w.createSwap call s = (.ok swapped.pre, s') ∧
      ((swapped.send.getD [] ++ swapped.keep).map Proof.secret).Perm
        (swapped.pre.preMints.map PreMint.secret) := by
  obtain ⟨parts, signatures, hsteps⟩ := swapProofs_spec hplain hconditions h
  have hgiven : (swapped.send.getD [] ++ swapped.keep).Perm swapped.constructed := by
    rcases hsteps.given with ⟨-, hsend, hkeep⟩ | ⟨a, amountSplit, -, -, hsend, hkeep⟩
    · rw [hsend, hkeep]
      exact List.Perm.refl _
    · rw [hsend, hkeep]
      exact (takeParts_perm _ _).trans (List.reverse_perm _)
  simp only [swapProofs, Proc.lift_bind_ok, Proc.bind_ok (x := w.createSwap call)] at h
  obtain ⟨_, -, pre, s₁, hpre, signatures, -, feeAndAmounts, -, constructed, hconstructed,
    ⟨send, keep⟩, -, h⟩ := h
  cases h
  refine ⟨hpre, ?_⟩
  rw [← (constructProofs_spec hconstructed).2.2]
  exact hgiven.map Proof.secret

end Returned

/-! ## What was asked for -/

section AsAsked

variable (w : Wallet) (call : SwapCall)

/-- The proofs that are sent are worth the amount and the fee for redeeming, they and those that are
kept are all new proofs, and the outputs are worth the inputs without the fee. -/
structure AsAsked (swapped : Swapped) : Prop where
  sent : ∀ a, call.amount = some a → ∃ sent redeem, swapped.send = some sent ∧
    w.redeemed call swapped.pre.keysetId swapped.feeAndAmounts = .ok redeem ∧
    worth sent = a.toNat + redeem.toNat
  parted : (swapped.send.getD [] ++ swapped.keep).Perm swapped.constructed
  balanced : worth call.proofs =
    Amount.total (swapped.pre.swapRequest.outputs.map BlindedMessage.amount) +
      swapped.pre.fee.toNat

/-- Nothing is lost in the splits, nothing is charged for redeeming, and the parts of the amount by
the target are among those of the outputs, but for parts of zero. -/
structure PartsMatch (parts : SwapParts) : Prop where
  send : Amount.total parts.sendParts = (parts.sendAmount.getD .zero).toNat
  change : Amount.total parts.changeParts = parts.change.toNat
  redeem : ∀ a, call.amount = some a → parts.sendAmount = some a
  wanted : ∀ a amountSplit, call.amount = some a →
    w.splitTargeted a call.target parts.feeAndAmounts = .ok amountSplit →
      Amount.total amountSplit = a.toNat ∧ ∀ part, part ≠ .zero →
        amountSplit.count part ≤ (parts.sendParts ++ parts.changeParts).count part

variable {w call} {s s' : Store} {swapped : Swapped}

/-- The balance of a swap is that of its parts. -/
theorem balanced_iff {pre : PreSwap} {parts : SwapParts} (h : Created w call pre parts) :
    worth call.proofs = Amount.total (pre.swapRequest.outputs.map BlindedMessage.amount) +
        pre.fee.toNat ↔
      Amount.total parts.sendParts = (parts.sendAmount.getD .zero).toNat ∧
        Amount.total parts.changeParts = parts.change.toNat := by
  have houtputs : pre.swapRequest.outputs.map BlindedMessage.amount =
      pre.preMints.map PreMint.amount := by
    rw [h.requested, List.map_map]
    exact List.map_congr_left fun p hp => (h.seeded p hp).message
  rw [houtputs, Amount.total_perm h.perm, Amount.total_append, h.inputs]
  have hsend := h.sendParts
  have hchange := h.changeParts
  omega

theorem asAsked_iff_partsMatch (hplain : ∀ n, w.env.parseSecret (hexDigits 64 n) = none)
    (hsigned : ∀ request signatures, w.postSwap request = .ok signatures →
      signatures.map BlindSignature.amount = request.outputs.map BlindedMessage.amount)
    (hconditions : call.conditions = none) (h : w.swapProofs call s = (.ok swapped, s')) :
    ∃ parts, w.swapParts call s = .ok parts ∧
      (AsAsked w call swapped ↔ PartsMatch w call parts) := by
  obtain ⟨parts, signatures, hsteps⟩ := swapProofs_spec hplain hconditions h
  have hcreated := hsteps.created
  have hgiven := hsteps.given
  have hknown := hsteps.known
  have hamounts : swapped.constructed.map Proof.amount =
      swapped.pre.preMints.map PreMint.amount := by
    rw [hsteps.amounts, hsigned _ _ hsteps.posted, hcreated.requested, List.map_map]
    exact List.map_congr_left fun p hp => (hcreated.seeded p hp).message
  have hbalance := balanced_iff hcreated
  refine ⟨parts, hsteps.parted, ?_⟩
  clear h hsteps
  obtain ⟨pre, feeAndAmounts, constructed, send, keep⟩ := swapped
  dsimp only at hcreated hgiven hknown hamounts hbalance ⊢
  subst hknown
  rcases hgiven with ⟨hnone, rfl, rfl⟩ | ⟨a, amountSplit, hsome, hsplit, rfl, rfl⟩
  · constructor
    · intro h
      obtain ⟨hsend, hchange⟩ := hbalance.mp h.balanced
      exact ⟨hsend, hchange, by simp [hnone], by simp [hnone]⟩
    · intro h
      exact ⟨by simp [hnone], List.Perm.refl _, hbalance.mpr ⟨h.send, h.change⟩⟩
  · obtain ⟨redeem, hredeem, hmore⟩ := hcreated.sent
    obtain ⟨more, hmore, hmoreNat⟩ := hmore a hsome
    obtain ⟨hless, hworth⟩ := worth_takeParts amountSplit constructed.reverse
    have hwithin : Amount.total amountSplit ≤ a.toNat :=
      total_splitTargeted_le (Outcome.mapErr_eq_ok.mp hsplit)
    have hcounts (part : Amount) : (constructed.reverse.map Proof.amount).count part =
        (parts.sendParts ++ parts.changeParts).count part := by
      rw [← hcreated.perm.count_eq, ← hamounts]
      exact ((List.reverse_perm constructed).map _).count_eq part
    simp only [hcounts] at hworth
    constructor
    · intro h
      obtain ⟨hsend, hchange⟩ := hbalance.mp h.balanced
      obtain ⟨sent, charged, hsent, hcharged, hexact⟩ := h.sent a hsome
      cases hsent
      cases hcharged.symm.trans hredeem
      -- neither the parts nor what is sent is worth more than the amount
      have htotal : Amount.total amountSplit = a.toNat := by omega
      have hmoreEq : more = a := Amount.ext_toNat (by omega)
      refine ⟨hsend, hchange, fun b hb => ?_, fun b others hb hothers => ?_⟩
      · cases hsome.symm.trans hb
        rw [hmore, hmoreEq]
      · cases hsome.symm.trans hb
        cases hsplit.symm.trans hothers
        exact ⟨htotal, hworth.mp (by omega)⟩
    · intro h
      have hmoreEq : more = a := Option.some.inj (hmore.symm.trans (h.redeem a hsome))
      obtain ⟨htotal, hparts⟩ := h.wanted a amountSplit hsome hsplit
      rw [hmoreEq] at hmoreNat
      refine ⟨fun b hb => ?_, ?_, hbalance.mpr ⟨h.send, h.change⟩⟩
      · cases hsome.symm.trans hb
        refine ⟨_, redeem, rfl, hredeem, ?_⟩
        rw [hworth.mpr hparts]
        omega
      · exact (takeParts_perm _ _).trans (List.reverse_perm constructed)

/-- A swap returns the proofs that are sent, and stores them and those that are kept. -/
theorem swap_eq_ok {send : Option (List Proof)} (h : w.swap call s = (.ok send, s')) :
    ∃ swapped s₁, w.swapProofs call s = (.ok swapped, s₁) ∧ send = swapped.send := by
  rw [swap, Proc.bind_ok] at h
  obtain ⟨swapped, s₁, hswapped, h⟩ := h
  simp only [Proc.lift_bind_ok] at h
  obtain ⟨_, -, _, -, _, -, h⟩ := h
  rw [Proc.bind_of_ok (Proc.write_run _ _)] at h
  cases h
  exact ⟨swapped, s₁, hswapped, rfl⟩

/-- For every swap without conditions whose outputs are signed for their amounts: it returns what
was asked for exactly if the parts match. -/
theorem swap_asAsked_iff (hplain : ∀ n, w.env.parseSecret (hexDigits 64 n) = none)
    (hsigned : ∀ request signatures, w.postSwap request = .ok signatures →
      signatures.map BlindSignature.amount = request.outputs.map BlindedMessage.amount)
    (hconditions : call.conditions = none) {send : Option (List Proof)}
    (h : w.swap call s = (.ok send, s')) :
    ∃ swapped s₁ parts, w.swapProofs call s = (.ok swapped, s₁) ∧ send = swapped.send ∧
      w.swapParts call s = .ok parts ∧ (AsAsked w call swapped ↔ PartsMatch w call parts) := by
  obtain ⟨swapped, s₁, hswapped, hsend⟩ := swap_eq_ok h
  obtain ⟨parts, hparts, hiff⟩ :=
    asAsked_iff_partsMatch hplain hsigned hconditions hswapped
  exact ⟨swapped, s₁, parts, hswapped, hsend, hparts, hiff⟩

/-! ### A wallet with one keyset -/

/-- Every secret hashes to a point, and a signature unblinds to itself. -/
def pointEnv : Env where
  parseSecret _ := none
  parsePublicKey _ := none
  verifySchnorr _ _ _ := true
  sha256 _ := 0
  hashToCurve _ := some ⟨false, 1⟩
  signMessage _ _ c := some c
  verifyMessage _ _ _ _ := true

def sampleFees (fee : Nat) (hfee : fee < 2 ^ 64) : Selection.KeysetFeeAndAmounts where
  entries := ⟨[(.v1 1, ⟨fee, [1, 2, 4, 8]⟩)], List.nodup_singleton _⟩
  fee_lt := by
    rintro entry hentry
    obtain rfl := List.mem_singleton.mp hentry
    exact hfee

theorem noFee_lt : 0 < 2 ^ 64 := Nat.two_pow_pos 64

/-- A wallet whose mint signs every output for its amount. -/
def sampleWallet (fee : Nat) (hfee : fee < 2 ^ 64) : Wallet where
  mintUrl := "https://mint.example"
  unit := .sat
  targetProofCount := 0
  env := pointEnv
  machine := ⟨10, fun _ => 0⟩
  fromSeed _ counter := some (BitVec.ofNat 256 counter, 1)
  draw _ _ := none
  blind _ _ := some ⟨false, 1⟩
  unblind c _ _ := some c
  refreshKeysets := .ok ()
  fetchActiveKeyset := .ok (.v1 1)
  getActiveKeyset := .ok (.v1 1)
  activeKeysetIds := .ok [.v1 1]
  keysetFeesAndAmounts := .ok (sampleFees fee hfee)
  keysets := (sampleFees fee hfee).keysets
  keys _ _ := some ⟨false, 1⟩
  postSwap request := .ok (request.outputs.map fun message =>
    ⟨message.amount, message.keysetId, message.blindedSecret⟩)

def emptyStore : Store := ⟨Table.empty, fun _ => 0⟩

theorem sampleWallet_signs (fee : Nat) (hfee : fee < 2 ^ 64) (request : SwapRequest)
    (signatures : List BlindSignature)
    (h : (sampleWallet fee hfee).postSwap request = .ok signatures) :
    signatures.map BlindSignature.amount = request.outputs.map BlindedMessage.amount := by
  cases h
  rw [List.map_map]
  rfl

def inputProof (amount : Amount) (secret : String) : Proof :=
  ⟨amount, .v1 1, secret, ⟨false, 0⟩, none⟩

def elevenCall : SwapCall :=
  ⟨some 6, .value 8, [inputProof 8 "a", inputProof 2 "b", inputProof 1 "c"], none, false⟩

def redeemCall : SwapCall := ⟨some 1, .none, [inputProof 2 "a", inputProof 2 "b"], none, true⟩

/-- With a fee of a tenth for each proof, eleven are swapped for four and two that are sent and a
change of four. -/
theorem swap_asAsked_iff_eleven : ∃ send s' swapped s₁,
    (sampleWallet 100 (by decide)).swap elevenCall emptyStore = (.ok send, s') ∧
      (sampleWallet 100 (by decide)).swapProofs elevenCall emptyStore = (.ok swapped, s₁) ∧
      send = swapped.send ∧ AsAsked (sampleWallet 100 (by decide)) elevenCall swapped := by
  have hsend : ((sampleWallet 100 (by decide)).swap elevenCall emptyStore).1 =
      .ok (some [⟨4, .v1 1, hexDigits 64 2, ⟨false, 1⟩, none⟩,
        ⟨2, .v1 1, hexDigits 64 0, ⟨false, 1⟩, none⟩]) := by decide +kernel
  have hswap : (sampleWallet 100 (by decide)).swap elevenCall emptyStore =
      (_, ((sampleWallet 100 (by decide)).swap elevenCall emptyStore).2) := Prod.ext hsend rfl
  obtain ⟨swapped, s₁, parts, hswapped, hreturned, hparts, hiff⟩ :=
    swap_asAsked_iff (fun _ => rfl) (sampleWallet_signs 100 (by decide)) rfl hswap
  have hparted : (sampleWallet 100 (by decide)).swapParts elevenCall emptyStore =
      .ok ⟨⟨100, [1, 2, 4, 8]⟩, some 6, 4, [2, 4], [4]⟩ := by decide +kernel
  cases hparts.symm.trans hparted
  refine ⟨_, _, swapped, s₁, hswap, hswapped, hreturned, hiff.mpr ⟨rfl, rfl, ?_, ?_⟩⟩
  · intro a ha
    exact ha
  · rintro a amountSplit ha hsplit
    cases ha
    have hwanted : (sampleWallet 100 (by decide)).splitTargeted 6 (.value 8)
        ⟨100, [1, 2, 4, 8]⟩ = .ok [4, 2] := by decide +kernel
    cases hsplit.symm.trans hwanted
    refine ⟨rfl, fun part _ => ?_⟩
    rw [List.count_append]
    exact ((List.Perm.swap _ _ _).count_eq part).le.trans (Nat.le_add_right _ _)

/-- With a fee of one for each proof one more is to be sent, and the only output is a proof of two:
it is not found among the parts of one, and nothing is sent. -/
theorem not_swap_asAsked_redeem :
    ¬ ∀ (w : Wallet) (call : SwapCall) (send : Option (List Proof)) (s s' : Store),
      (∀ n, w.env.parseSecret (hexDigits 64 n) = none) →
      (∀ request signatures, w.postSwap request = .ok signatures →
        signatures.map BlindSignature.amount = request.outputs.map BlindedMessage.amount) →
      call.conditions = none → w.swap call s = (.ok send, s') →
      ∃ swapped s₁, w.swapProofs call s = (.ok swapped, s₁) ∧ send = swapped.send ∧
        AsAsked w call swapped := by
  intro hall
  have hsend : ((sampleWallet 1000 (by decide)).swap redeemCall emptyStore).1 = .ok (some []) := by
    decide +kernel
  obtain ⟨swapped, s₁, -, hreturned, hasked⟩ := hall (sampleWallet 1000 (by decide)) redeemCall
    (some []) emptyStore _ (fun _ => rfl) (sampleWallet_signs 1000 (by decide)) rfl
    (Prod.ext hsend rfl)
  obtain ⟨sent, redeem, hsent, -, hworth⟩ := hasked.sent 1 rfl
  rw [← hreturned] at hsent
  cases hsent
  change 0 = 1 + redeem.toNat at hworth
  omega

end AsAsked

end Wallet

end Cdk
