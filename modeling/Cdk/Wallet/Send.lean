import Cdk.Wallet.SplitWithFee
import Cdk.Wallet.Swap

/-!
# Sends of the wallet

A send is prepared and confirmed. Preparing selects proofs, reserves them and
plans the parts of the token with their fee: proofs that match a part are at hand,
and the others are to be swapped. Confirming swaps them for what is missing.
-/

namespace Cdk

open Lib

namespace Wallet

open Selection (worth)

/-! ## Options -/

inductive SendKind where
  | onlineExact
  | onlineTolerance (tolerance : Amount)
  | offlineExact
  | offlineTolerance (tolerance : Amount)
deriving DecidableEq, Repr

namespace SendKind

def isOffline : SendKind → Bool
  | offlineExact | offlineTolerance _ => true
  | onlineExact | onlineTolerance _ => false

def tolerance : SendKind → Option Amount
  | onlineTolerance tolerance | offlineTolerance tolerance => some tolerance
  | onlineExact | offlineExact => none

def hasTolerance (kind : SendKind) : Bool := kind.tolerance.isSome

end SendKind

structure SendOptions where
  conditions : Option SpendingConditions
  sendKind : SendKind
  includeFee : Bool
  maxProofs : Option Nat
deriving DecidableEq, Repr

structure PreparedSend where
  amount : Amount
  options : SendOptions
  proofsToSwap : List Proof
  swapFee : Amount
  proofsToSend : List Proof
  sendFee : Amount
deriving DecidableEq, Repr

section Sends

variable (w : Wallet)

/-! ## Preparing -/

/-- The proofs to select from, and whether all of them are to be swapped. -/
def availableProofs (amount : Amount) (opts : SendOptions) (s : Store) :
    Outcome Error (List Proof × Bool) := do
  let available := w.getProofsWith [.unspent] (opts.conditions.map ([·])) s
  let availableSum ← total available
  if availableSum < amount then
    if opts.conditions.isNone ∨ opts.sendKind.isOffline then .err (.cdk .insufficientFunds)
    else .ok (w.getProofsWith [.unspent] (some []) s, true)
  else .ok (available, false)

/-- The fee of the selected proofs, if it is included. -/
def includedFee (opts : SendOptions) (selected : List Proof) : Outcome Error Amount :=
  if opts.includeFee then w.getProofsFee selected else .ok .zero

/-- The checks of the selected proofs for an offline send. -/
def checkSelected (amount : Amount) (opts : SendOptions) (selectedTotal exactTotal : Amount) :
    Outcome Error Unit :=
  if selectedTotal = exactTotal then .ok ()
  else if opts.sendKind = .offlineExact then .err (.cdk .insufficientFunds)
  else match opts.sendKind.tolerance with
    | some tolerance => do
        let excess ← selectedTotal.sub amount
        Outcome.ensure (¬ (tolerance < excess ∧ opts.sendKind.isOffline)) (.cdk .insufficientFunds)
    | none => .ok ()

/-- `Wallet::prepare_send` up to its second half, with the order of the sets of the selection. -/
def selectForSend (order feeOrder : Selection.HashOrder) (amount : Amount) (opts : SendOptions)
    (s : Store) : Outcome Error (List Proof × Bool) := do
  let keysetFees ← w.keysetFeesAndAmounts
  let (available, forceSwap) ← w.availableProofs amount opts s
  let activeKeysetIds ← w.activeKeysetIds
  let selected ← (Selection.selectProofs order feeOrder amount available activeKeysetIds keysetFees
    opts.includeFee).mapErr .cdk
  let selectedTotal ← total selected
  let sendFee ← w.includedFee opts selected
  let exactTotal ← amount.add sendFee
  checkSelected amount opts selectedTotal exactTotal
  .ok (selected, forceSwap)

/-- The parts to send and their fee. -/
def sendAmounts (amount : Amount) (includeFee : Bool) : Outcome Error (List Amount × Amount) := do
  let activeKeysetId ← w.getActiveKeyset
  let feeAndAmounts ← w.getKeysetFeesAndAmountsById activeKeysetId
  if includeFee then do
    let sendSplit ← (Counters.splitWithFee amount feeAndAmounts).mapErr .amounts
    let sendFee ← w.getProofsFeeByCount activeKeysetId sendSplit.length
    .ok (sendSplit, sendFee)
  else do
    let sendSplit ← amount.split feeAndAmounts.amounts
    .ok (sendSplit, .zero)

/-- What is known when the proofs are reserved. -/
structure SendPlan where
  proofs : List Proof
  forceSwap : Bool
  sendAmounts : List Amount
  sendFee : Amount
  ys : List PublicKey
deriving DecidableEq, Repr

def planSend (order feeOrder : Selection.HashOrder) (amount : Amount) (opts : SendOptions)
    (s : Store) : Outcome Error SendPlan := do
  let (proofs, forceSwap) ← w.selectForSend order feeOrder amount opts s
  let (sendAmounts, sendFee) ← w.sendAmounts amount opts.includeFee
  let ys ← w.ys proofs
  .ok ⟨proofs, forceSwap, sendAmounts, sendFee, ys⟩

/-- The proofs to send and the proofs to swap. -/
def SendPlan.separate (opts : SendOptions) (exactProofs : Bool) (plan : SendPlan) :
    List Proof × List Proof :=
  if plan.forceSwap then ([], plan.proofs)
  else if exactProofs ∨ opts.sendKind.isOffline ∨ opts.sendKind.hasTolerance then (plan.proofs, [])
  else takeParts plan.sendAmounts plan.proofs

/-- `Wallet::internal_prepare_send` behind reserving. -/
def finishPreparing (amount : Amount) (opts : SendOptions) (plan : SendPlan) :
    Outcome Error PreparedSend := do
  let proofsTotal ← total plan.proofs
  let exactTotal ← amount.add plan.sendFee
  let exactProofs := proofsTotal = exactTotal && opts.maxProofs.all (plan.proofs.length ≤ ·)
  let (proofsToSend, proofsToSwap) := plan.separate opts exactProofs
  let swapFee ← w.getProofsFee proofsToSwap
  .ok ⟨amount, opts, proofsToSwap, swapFee, proofsToSend, plan.sendFee⟩

/-- `Wallet::prepare_send`. -/
def prepareSend (order feeOrder : Selection.HashOrder) (amount : Amount) (opts : SendOptions) :
    Proc Store Error PreparedSend := do
  let plan ← .read (w.planSend order feeOrder amount opts)
  Proc.write (Store.updateProofsState plan.ys .reserved)
  .lift (w.finishPreparing amount opts plan)

/-! ## Confirming -/

end Sends

/-! ## Plans -/

section Plans

variable {w : Wallet} {order feeOrder : Selection.HashOrder} {amount : Amount} {opts : SendOptions}
  {s : Store} {plan : SendPlan}

/-- The proofs of a plan to send and to swap. -/
def SendPlan.parted (amount : Amount) (opts : SendOptions) (plan : SendPlan) :
    List Proof × List Proof :=
  plan.separate opts (decide (worth plan.proofs = amount.toNat + plan.sendFee.toNat) &&
    opts.maxProofs.all (plan.proofs.length ≤ ·))

/-- What is selected comes from the available proofs, and its sum is an amount. -/
structure SelectedFor (w : Wallet) (order feeOrder : Selection.HashOrder) (amount : Amount)
    (opts : SendOptions) (s : Store) (proofs : List Proof) (forceSwap : Bool)
    (fees : Selection.KeysetFeeAndAmounts) (ids : List Id) (available : List Proof) : Prop where
  stored : w.keysetFeesAndAmounts = .ok fees
  offered : w.availableProofs amount opts s = .ok (available, forceSwap)
  active : w.activeKeysetIds = .ok ids
  selected : Selection.selectProofs order feeOrder amount available ids fees opts.includeFee =
    .ok proofs
  summed : ∃ selectedTotal, total proofs = .ok selectedTotal

theorem selectForSend_spec {proofs : List Proof} {forceSwap : Bool}
    (h : w.selectForSend order feeOrder amount opts s = .ok (proofs, forceSwap)) :
    ∃ fees ids available,
      SelectedFor w order feeOrder amount opts s proofs forceSwap fees ids available := by
  simp only [selectForSend, Outcome.bind_eq_ok, Outcome.mapErr_eq_ok] at h
  obtain ⟨fees, hfees, ⟨available, swaps⟩, havailable, ids, hids, selected, hselected,
    selectedTotal, htotal, sendFee, -, exactTotal, -, _, -, h⟩ := h
  cases h
  exact ⟨fees, ids, available, hfees, havailable, hids, hselected, selectedTotal, htotal⟩

theorem planSend_spec (h : w.planSend order feeOrder amount opts s = .ok plan) :
    w.selectForSend order feeOrder amount opts s = .ok (plan.proofs, plan.forceSwap) ∧
      w.sendAmounts amount opts.includeFee = .ok (plan.sendAmounts, plan.sendFee) ∧
      w.ys plan.proofs = .ok plan.ys := by
  simp only [planSend, Outcome.bind_eq_ok] at h
  obtain ⟨⟨proofs, forceSwap⟩, hselected, ⟨parts, fee⟩, hparts, ys, hys, h⟩ := h
  cases h
  exact ⟨hselected, hparts, hys⟩

/-- Behind the reservation only the fee of the proofs to swap is open. -/
theorem finishPreparing_eq {proofsTotal exactTotal : Amount}
    (htotal : total plan.proofs = .ok proofsTotal)
    (hexact : amount.add plan.sendFee = (.ok exactTotal : Outcome Error Amount)) :
    w.finishPreparing amount opts plan =
      w.getProofsFee (plan.parted amount opts).2 >>= fun swapFee =>
        .ok ⟨amount, opts, (plan.parted amount opts).2, swapFee, (plan.parted amount opts).1,
          plan.sendFee⟩ := by
  have hworth : proofsTotal.toNat = worth plan.proofs :=
    Selection.totalAmount_eq_ok.mp (Outcome.mapErr_eq_ok.mp htotal)
  have hsum : exactTotal.toNat = amount.toNat + plan.sendFee.toNat :=
    Amount.checkedAdd_eq_some.mp (Outcome.expect_eq_ok.mp hexact)
  have heq : decide (proofsTotal = exactTotal) =
      decide (worth plan.proofs = amount.toNat + plan.sendFee.toNat) := by
    apply decide_eq_decide.mpr
    rw [← hworth, ← hsum]
    exact ⟨congrArg Amount.toNat, fun h => Amount.ext_toNat h⟩
  rw [finishPreparing, htotal, Outcome.bind_ok, hexact, Outcome.bind_ok, SendPlan.parted, ← heq]

end Plans

end Wallet

end Cdk
