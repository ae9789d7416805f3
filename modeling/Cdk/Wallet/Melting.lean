import Cdk.Wallet.ExactProofs
import Cdk.Wallet.FreshSecrets
import Cdk.Wallet.MeltAnswers

/-!
# Melting a quote

A melt selects unspent proofs for its quote, swaps the largest of them for the
part of it that is needed, and posts what it has. When it ends, the balance is
what was not selected, what the swap has kept and the change. When it fails, the
inputs are out of the balance, reserved or pending.
-/

namespace Cdk

open Lib

namespace Wallet

open Selection (HashOrder KeysetFeeAndAmounts selectExactProofs worth)

/-- The error is that there are not enough funds. -/
def Error.isInsufficientFunds : Error → Bool
  | .cdk .insufficientFunds => true
  | .amounts .insufficientFunds => true
  | _ => false

/-- What the mint answers during a step, and what is stored of its keysets then. -/
structure MintReplies where
  refreshKeysets : Outcome Error Unit
  fetchActiveKeyset : Outcome Error Id
  getActiveKeyset : Outcome Error Id
  activeKeysetIds : Outcome Error (List Id)
  keysetFeesAndAmounts : Outcome Error KeysetFeeAndAmounts
  keysets : Keysets
  keys : Id → Amount → Option PublicKey
  postSwap : SwapRequest → Outcome Error (List BlindSignature)

/-- What a melt is given from outside: the orders of its sets, the answers to its steps, and when it
looks at the clock. -/
structure MeltReplies where
  order : HashOrder
  feeOrder : HashOrder
  checkedAt : Nat
  sentAt : Nat
  refreshKeysets : Outcome Error (List Id)
  keysetFeesAndAmounts : Outcome Error KeysetFeeAndAmounts
  exchanging : MintReplies
  melting : MintReplies
  storedKeys : Id → Option (Amount → Option PublicKey)
  postMelt : MeltMessage → Outcome Error MeltResponse
  postCheckState : List PublicKey → Outcome Error (List State)
  reclaiming : MintReplies

section Operations

variable (w : Wallet)

/-- The wallet during a step with these answers. -/
def replied (replies : MintReplies) : Wallet :=
  { w with
    refreshKeysets := replies.refreshKeysets
    fetchActiveKeyset := replies.fetchActiveKeyset
    getActiveKeyset := replies.getActiveKeyset
    activeKeysetIds := replies.activeKeysetIds
    keysetFeesAndAmounts := replies.keysetFeesAndAmounts
    keysets := replies.keysets
    keys := replies.keys
    postSwap := replies.postSwap }

variable (replies : MeltReplies) (quoteId : String) (quoteInfo : Option StoredMeltQuote)

/-- The swap for the part of a proof that is needed. -/
def exchangeCall (proof : Proof) (exactAmount : Amount) : SwapCall :=
  ⟨some exactAmount, .none, [proof], none, false⟩

/-- `Wallet::melt_with_metadata` up to the melt of the proofs. -/
def prepareMelt : Proc Store Error (List Proof) := do
  let quote ← .lift (Outcome.ofOption (.cdk .unknownQuote) quoteInfo)
  let _ ← .lift (Outcome.ensure (replies.checkedAt < quote.expiry) .expiredQuote)
  let inputsNeeded ← .lift (quote.amount.add quote.feeReserve)
  let availableProofs ← .read fun s => .ok (w.getUnspentProofs s)
  let activeKeysetIds ← .lift replies.refreshKeysets
  let keysetFees ← .lift replies.keysetFeesAndAmounts
  let (inputProofs, exchange) ← .lift ((selectExactProofs replies.order replies.feeOrder
    inputsNeeded availableProofs activeKeysetIds keysetFees true).mapErr .cdk)
  match exchange with
  | some (proof, exactAmount) => do
      let swapped ← (w.replied replies.exchanging).swap (exchangeCall proof exactAmount)
      let newProofs ← .lift (Outcome.ofOption (.cdk .internal) swapped)
      pure (inputProofs ++ newProofs)
  | none => pure inputProofs

/-- The call of the melt of the proofs. -/
def meltCall (inputs : List Proof) : MeltCall := ⟨quoteId, quoteInfo, replies.sentAt, inputs⟩

/-- `Wallet::reclaim_unspent`. -/
def reclaimUnspent (proofs : List Proof) : Proc Store Error Unit := do
  let ys ← .lift (w.ys proofs)
  let spendable ← .lift (replies.postCheckState ys)
  let unspent := ((proofs.zip spendable).filter fun entry => entry.2 = .unspent).map Prod.fst
  let _ ← (w.replied replies.reclaiming).swap ⟨none, .none, unspent, none, false⟩
  pure ()

/-- `Wallet::melt_proofs_with_metadata` behind its request. -/
def answerMelt (proofs : List Proof) (sent : MeltSent) : Proc Store Error Melted :=
  match replies.postMelt sent.request with
  | .ok response => (w.replied replies.melting).finishMelt replies.storedKeys proofs sent response
  | .err e => do
      w.reclaimUnspent replies proofs
      .lift (.err e)
  | .panic => .lift .panic

/-- `Wallet::melt_proofs_with_metadata`. -/
def payMelt (inputs : List Proof) : Proc Store Error Melted := do
  let sent ← (w.replied replies.melting).sendMelt (meltCall replies quoteId quoteInfo inputs)
  w.answerMelt replies inputs sent

/-- `Wallet::melt_with_metadata`. -/
def melt : Proc Store Error Melted := do
  let inputs ← w.prepareMelt replies quoteInfo
  w.payMelt replies quoteId quoteInfo inputs

end Operations

/-! ## What a request takes -/

section Requests

variable {w : Wallet} {id : Id} {change : Amount} {preMints : List PreMint} {call : MeltCall}
  {sent : MeltSent} {info : ProofInfo} {s s' : Store}

/-- Blank outputs have secrets from indices that were taken. -/
theorem taken_blankPreMints (h : w.blankPreMints id change s = (.ok preMints, s')) :
    w.Taken s s' id (preMints.map PreMint.secret) ∧ s'.proofs = s.proofs := by
  unfold blankPreMints at h
  split at h
  next =>
    cases h
    exact ⟨⟨fun _ => le_rfl, 0, rfl, List.Perm.refl _⟩, rfl⟩
  next hpos =>
    rw [Proc.bind_ok] at h
    obtain ⟨newCounter, s₁, hnew, h⟩ := h
    obtain ⟨rfl, hincremented⟩ := incremented hnew
    obtain ⟨hblank, rfl⟩ := Prod.ext_iff.mp h
    dsimp only [Proc.lift_run] at hblank
    rw [preMintsFromSeedBlank, if_neg hpos, Nat.add_sub_cancel] at hblank
    obtain ⟨hsecrets, hcount⟩ := secrets_of_deriveAll hblank
    have hlength : max (w.machine.log2Ceil change) 1 = preMints.length := by
      rw [← List.length_replicate (n := max (w.machine.log2Ceil change) 1) (a := Amount.zero),
        ← (deriveAll_spec hblank).1, List.length_map]
    rw [hlength, asU32_length hcount] at hincremented
    rw [hlength, asU32_length hcount]
    exact ⟨⟨hincremented.mono, preMints.length, hincremented.counter, hsecrets ▸ List.Perm.refl _⟩,
      hincremented.proofs⟩

/-- The points that a call makes pending. -/
def Spends (w : Wallet) (call : MeltCall) (ys : List PublicKey) : Prop :=
  ∃ quote proofsTotal, w.beforePending (call.quoteInfo.map StoredMeltQuote.toMeltQuoteInfo) call.now
    call.proofs = .ok (quote, proofsTotal, ys)

/-- What is known when the request of a melt is sent. -/
structure Sends (w : Wallet) (call : MeltCall) (s : Store) (sent : MeltSent) (ys : List PublicKey)
    (s' : Store) : Prop where
  spends : w.Spends call ys
  quote : call.quoteInfo = some sent.quote
  stored : s'.proofs = (s.updateProofsState ys .pending).proofs
  taken : w.Taken s s' sent.keysetId (sent.preMints.map PreMint.secret)

theorem keeps_proofs_sendBehindPending (quote : StoredMeltQuote) (proofsTotal : Amount) :
    Proc.Keeps Store.proofs (w.sendBehindPending call quote proofsTotal) := by
  apply Proc.Keeps.bind (Proc.Keeps.lift _)
  intro activeKeysetId
  apply Proc.Keeps.bind (Proc.Keeps.lift _)
  intro changeAmount
  apply Proc.Keeps.bind (keeps_proofs_blankPreMints w _ _)
  intro preMints
  dsimp only
  cases quote.paymentMethod with
  | custom _ => exact Proc.Keeps.lift _
  | bolt11 => exact Proc.Keeps.pure _
  | bolt12 => exact Proc.Keeps.pure _

theorem sends_of_sendMelt (h : w.sendMelt call s = (.ok sent, s')) :
    ∃ ys, w.Sends call s sent ys s' := by
  have hrun := h
  simp only [sendMelt, Proc.lift_bind_ok, Outcome.ofOption_eq_ok] at h
  obtain ⟨quote, hquote, ⟨_, proofsTotal, ys⟩, hbefore, h⟩ := h
  rw [Proc.bind_of_ok (Proc.write_run _ _)] at h
  have hkept := @keeps_proofs_sendBehindPending w call quote proofsTotal
    (s.updateProofsState ys .pending)
  rw [h] at hkept
  simp only [sendBehindPending, Proc.lift_bind_ok] at h
  obtain ⟨activeKeysetId, -, changeAmount, -, h⟩ := h
  rw [Proc.bind_ok] at h
  obtain ⟨preMints, s₁, hblank, h⟩ := h
  have htaken : w.Taken s s₁ activeKeysetId (preMints.map PreMint.secret) := by
    obtain ⟨hmono, hindices⟩ := (taken_blankPreMints hblank).1
    exact ⟨hmono, hindices⟩
  have hspends : w.Spends call ys := ⟨_, proofsTotal, by rw [hquote]; exact hbefore⟩
  cases hmethod : quote.paymentMethod with
  | custom name =>
      rw [hmethod] at h
      cases h
  | bolt11 =>
      rw [hmethod] at h
      cases h
      exact ⟨ys, hspends, hquote, hkept, htaken⟩
  | bolt12 =>
      rw [hmethod] at h
      cases h
      exact ⟨ys, hspends, hquote, hkept, htaken⟩

theorem Sends.grows {ys : List PublicKey} (h : w.Sends call s sent ys s') : w.Grows s s' :=
  (grows_mark s ys .pending).trans (Grows.of_proofs h.stored h.taken.mono)

/-- Behind a request the inputs are out of the balance. -/
theorem Sends.mem_unspentInfos {ys : List PublicKey} (h : w.Sends call s sent ys s') :
    info ∈ w.unspentInfos s' ↔ info ∈ w.unspentInfos s ∧ info.y ∉ ys := by
  rw [unspentInfos_congr h.stored]
  exact mem_unspentInfos_mark (by decide)

end Requests

end Wallet

end Cdk
