import Cdk.Lib.Procedures
import Cdk.Nuts.KeysetId
import Cdk.Wallet.CountedFees
import Cdk.Wallet.ProofInfo
import Cdk.Wallet.SelectProofs

/-!
# Operations of the wallet

A swap, a melt and a send work out amounts, fees and secrets, and change the
states of their proofs in the local store on the way. What the mint answers, and
what is stored of its keysets, is given. The products of fees wrap, as they do in
a release build.
-/

namespace Cdk

open Lib

namespace Wallet

inductive Error where
  | cdk (error : Cdk.Error)
  | amounts (error : Counters.Error)
  | noActiveKeyset
  | expiredQuote
  | unexpectedProofState
  | lengths
  | noKey
  | client
deriving DecidableEq, Repr

/-- The proofs and the counters of the local store. -/
structure Store where
  proofs : ProofTable
  counters : Id → Nat

namespace Store

/-- `update_proofs_state`. -/
def updateProofsState (ys : List PublicKey) (state : State) (s : Store) : Store :=
  let setState (info : ProofInfo) : ProofInfo :=
    if info.y ∈ ys then info.setState state else info
  have hkey (info : ProofInfo) : (setState info).y = info.y := by
    dsimp only [setState]
    split <;> rfl
  { s with proofs := s.proofs.update setState hkey }

/-- `update_proofs`. -/
def updateProofs (added : List ProofInfo) (removedYs : List PublicKey) (s : Store) : Store :=
  { s with proofs := (s.proofs.insertAll added).removeAll removedYs }

/-- `increment_keyset_counter`, whose addition panics on overflow. -/
def incrementKeysetCounter (id : Id) (count : Nat) : Tx Store Error Nat := fun s =>
  let newCounter := s.counters id + count
  if newCounter < 2 ^ 32 then
    .ok (newCounter, { s with counters := Function.update s.counters id newCounter })
  else .panic

end Store

/-- A secret with its blinding factor and the message made of them. -/
structure PreMint where
  blindedMessage : BlindedMessage
  secret : String
  r : BitVec 256
  amount : Amount
deriving DecidableEq, Repr

end Wallet

/-- A wallet, with the results of its calls that do not concern its proofs: what it derives from its
seed and draws for conditions, what the mint answers, and what is stored of the keysets. -/
structure Wallet where
  mintUrl : String
  unit : CurrencyUnit
  targetProofCount : Nat
  env : Env
  machine : Counters.Machine
  /-- The bytes of a secret and its blinding factor. -/
  fromSeed : Id → Nat → Option (BitVec 256 × BitVec 256)
  /-- A new secret of conditions and its blinding factor. -/
  draw : SpendingConditions → Nat → Option (String × BitVec 256)
  blind : String → BitVec 256 → Option PublicKey
  unblind : PublicKey → BitVec 256 → PublicKey → Option PublicKey
  refreshKeysets : Outcome Wallet.Error Unit
  fetchActiveKeyset : Outcome Wallet.Error Id
  getActiveKeyset : Outcome Wallet.Error Id
  activeKeysetIds : Outcome Wallet.Error (List Id)
  keysetFeesAndAmounts : Outcome Wallet.Error Selection.KeysetFeeAndAmounts
  keysets : Keysets
  keys : Id → Amount → Option PublicKey
  postSwap : SwapRequest → Outcome Wallet.Error (List BlindSignature)

namespace Wallet

open Selection (worth totalAmount)

section Operations

variable (w : Wallet)

/-! ## Keysets and fees -/

/-- `get_keyset_fees_and_amounts_by_id`. -/
def getKeysetFeesAndAmountsById (id : Id) : Outcome Error Counters.FeeAndAmounts := do
  let fees ← w.keysetFeesAndAmounts
  .ofOption (.cdk .unknownKeySet) (fees.get id)

/-- `Wallet::get_proofs_fee`. -/
def getProofsFee (proofs : List Proof) : Outcome Error Amount :=
  (Cdk.getProofsFee w.keysets proofs).mapErr .cdk

/-- The fees of the stored keysets. -/
def inputFeePpk (id : Id) : Option Nat := (w.keysets.info id).map KeySet.inputFeePpk

/-- `Wallet::get_keyset_count_fee`. -/
def getKeysetCountFee (id : Id) (count : Nat) : Outcome Error Amount :=
  (CountedFees.getKeysetCountFee .wrapping w.inputFeePpk id count).mapErr .cdk

/-- `Wallet::get_proofs_fee_by_count` for the count of one keyset. -/
def getProofsFeeByCount (id : Id) (count : Nat) : Outcome Error Amount := do
  let _ ← Outcome.ofOption (Error.cdk .unknownKeySet) (w.keysets.info id)
  (CountedFees.calculateFee .wrapping w.inputFeePpk [(id, count)]).mapErr .cdk

/-- `Proofs::total_amount`. -/
def total (proofs : List Proof) : Outcome Error Amount := (totalAmount proofs).mapErr .cdk

/-- `Proofs::ys`. -/
def ys (proofs : List Proof) : Outcome Error (List PublicKey) :=
  proofs.mapM fun p => Outcome.ofOption (.cdk .dhke) (p.y w.env)

/-- `Wallet::get_proofs_with`. -/
def getProofsWith (states : List State) (conditions : Option (List SpendingConditions))
    (s : Store) : List Proof :=
  (s.proofs.rows.filter fun info =>
    info.matchesConditions ⟨some w.mintUrl, some w.unit, some states, conditions⟩).map
      fun info => info.proof.toProof

/-! ## Splits and secrets -/

/-- `Amount::split_targeted`. -/
def splitTargeted (amount : Amount) (target : Counters.SplitTarget)
    (feeAndAmounts : Counters.FeeAndAmounts) : Outcome Error (List Amount) :=
  (Counters.splitTargeted w.machine.rounds amount target feeAndAmounts).mapErr .amounts

/-- `Wallet::amounts_needed_for_state_target` for the unspent proofs. -/
def amountsNeededForStateTarget (feeAndAmounts : Counters.FeeAndAmounts)
    (unspentProofs : List Proof) : List Amount :=
  feeAndAmounts.amounts.flatMap fun amount =>
    List.replicate (w.targetProofCount - unspentProofs.countP fun p => p.amount = amount) amount

/-- The target for the change: the one that was passed, or what the state needs. -/
def changeSplitTarget (target : Counters.SplitTarget) (changeAmount : Amount)
    (feeAndAmounts : Counters.FeeAndAmounts) (s : Store) : Outcome Error Counters.SplitTarget :=
  match target with
  | .none =>
      (Counters.determineSplitTargetValues
        (w.amountsNeededForStateTarget feeAndAmounts (w.getProofsWith [.unspent] none s))
        changeAmount).mapErr .amounts
  | target => .ok target

/-- The body of the loops that make pre-mint secrets. -/
def preMint (id : Id) (amount : Amount) (drawn : Option (String × BitVec 256)) :
    Outcome Error PreMint := do
  let (secret, r) ← Outcome.ofOption (.amounts .derivation) drawn
  let blinded ← Outcome.ofOption (.cdk .dhke) (w.blind secret r)
  .ok ⟨⟨amount, id, blinded⟩, secret, r, amount⟩

/-- `Secret::from_seed` and `SecretKey::from_seed`; a secret is the text of its bytes. -/
def seedSecret (id : Id) (counter : Nat) : Option (String × BitVec 256) :=
  (w.fromSeed id counter).map fun drawn => (hexDigits 64 drawn.1.toNat, drawn.2)

/-- The loop of `PreMintSecrets::from_seed` and `PreMintSecrets::from_seed_blank`. -/
def deriveAll (id : Id) : Nat → List Amount → Outcome Error (List PreMint)
  | _, [] => .ok []
  | counter, amount :: rest => do
      let preMint ← w.preMint id amount (w.seedSecret id counter)
      let counter ← (Counters.addCounter counter 1).mapErr .amounts
      let preMints ← deriveAll id counter rest
      .ok (preMint :: preMints)

/-- `PreMintSecrets::from_seed`. -/
def preMintsFromSeed (id : Id) (counter : Nat) (amount : Amount) (target : Counters.SplitTarget)
    (feeAndAmounts : Counters.FeeAndAmounts) : Outcome Error (List PreMint) := do
  let parts ← w.splitTargeted amount target feeAndAmounts
  w.deriveAll id counter parts

/-- `PreMintSecrets::with_conditions`. -/
def preMintsWithConditions (id : Id) (amount : Amount) (conditions : SpendingConditions)
    (feeAndAmounts : Counters.FeeAndAmounts) : Outcome Error (List PreMint) := do
  let parts ← w.splitTargeted amount .none feeAndAmounts
  parts.zipIdx.mapM fun part => w.preMint id part.1 (w.draw conditions part.2)

/-- `PreMintSecrets::sort_secrets`, a stable sort by amount. -/
def sortSecrets (preMints : List PreMint) : List PreMint :=
  preMints.insertionSort fun a b => a.amount ≤ b.amount

/-! ## Swaps -/

/-- What is left of the inputs behind the amount and the fee. -/
def changeAmount (amount : Option Amount) (proofsTotal fee : Amount) : Outcome Error Amount := do
  let totalToSubtract ← Outcome.ofOption (.cdk .amountOverflow)
    ((amount.getD .zero).checkedAdd fee)
  .ofOption (.cdk .insufficientFunds) (proofsTotal.checkedSub totalToSubtract)

/-- The fee for redeeming what is sent; an error of the split is unwrapped. -/
def feeToRedeem (id : Id) (amount : Option Amount) (feeAndAmounts : Counters.FeeAndAmounts) :
    Outcome Error Amount :=
  match w.splitTargeted (amount.getD .zero) .none feeAndAmounts with
  | .ok split => w.getKeysetCountFee id split.length
  | _ => .panic

/-- The amounts to send and of the change. -/
def sendAndChange (includeFees : Bool) (id : Id) (amount : Option Amount) (change : Amount)
    (feeAndAmounts : Counters.FeeAndAmounts) : Outcome Error (Option Amount × Amount) :=
  if includeFees then do
    let feeToRedeem ← w.feeToRedeem id amount feeAndAmounts
    let sendAmount ← amount.mapM fun a =>
      Outcome.ofOption (.cdk .amountOverflow) (a.checkedAdd feeToRedeem)
    let changeAmount ← Outcome.ofOption (.cdk .insufficientFunds) (change.checkedSub feeToRedeem)
    .ok (sendAmount, changeAmount)
  else .ok (amount, change)

/-- The number of secrets that are derived from the seed. -/
def totalSecretsNeeded (conditions : Option SpendingConditions) (sendAmount : Option Amount)
    (change : Amount) (target : Counters.SplitTarget) (feeAndAmounts : Counters.FeeAndAmounts) :
    Outcome Error Nat :=
  match conditions with
  | some _ => do
      let changeParts ← w.splitTargeted change target feeAndAmounts
      .ok (Counters.asU32 changeParts.length)
  | none => do
      let sendParts ← w.splitTargeted (sendAmount.getD .zero) .none feeAndAmounts
      let changeParts ← w.splitTargeted change target feeAndAmounts
      (Counters.addCounter (Counters.asU32 sendParts.length)
        (Counters.asU32 changeParts.length)).mapErr .amounts

/-- The messages for what is sent and for the change, with the number of derived secrets. -/
def desiredMessages (conditions : Option SpendingConditions) (id : Id) (start : Nat)
    (sendAmount : Option Amount) (change : Amount) (target : Counters.SplitTarget)
    (feeAndAmounts : Counters.FeeAndAmounts) : Outcome Error (List PreMint × Nat) :=
  match conditions with
  | some conditions => do
      let changePreMints ← w.preMintsFromSeed id start change target feeAndAmounts
      let preMints ←
        w.preMintsWithConditions id (sendAmount.getD .zero) conditions feeAndAmounts
      .ok (preMints ++ changePreMints, changePreMints.length)
  | none => do
      let preMints ← w.preMintsFromSeed id start (sendAmount.getD .zero) .none feeAndAmounts
      let count ← (Counters.addCounter start (Counters.asU32 preMints.length)).mapErr .amounts
      let changePreMints ← w.preMintsFromSeed id count change target feeAndAmounts
      .ok (preMints ++ changePreMints, changePreMints.length + preMints.length)

/-- Take a number of indices of the counter of a keyset; no number of them starts at zero. -/
def reserveCounter (id : Id) (needed : Nat) : Proc Store Error Nat :=
  if 0 < needed then do
    let newCounter ← Proc.transact (Store.incrementKeysetCounter id needed)
    pure (newCounter - needed)
  else pure 0

structure PreSwap where
  keysetId : Id
  preMints : List PreMint
  swapRequest : SwapRequest
  derivedSecretCount : Nat
  fee : Amount
deriving DecidableEq, Repr

/-- The arguments of a swap. -/
structure SwapCall where
  amount : Option Amount
  target : Counters.SplitTarget
  proofs : List Proof
  conditions : Option SpendingConditions
  includeFees : Bool
deriving DecidableEq, Repr

/-- What `create_swap` does before it reserves the proofs. -/
def beforeReserving (call : SwapCall) : Outcome Error (Id × Amount × List PublicKey) := do
  let activeKeysetId ← w.fetchActiveKeyset
  let proofsTotal ← total call.proofs
  let ys ← w.ys call.proofs
  .ok (activeKeysetId, proofsTotal, ys)

/-- What it does behind that. -/
def behindReserving (call : SwapCall) (activeKeysetId : Id) (proofsTotal : Amount) :
    Proc Store Error PreSwap := do
  let fee ← .lift (w.getProofsFee call.proofs)
  let change ← .lift (changeAmount call.amount proofsTotal fee)
  let feeAndAmounts ← .lift (w.getKeysetFeesAndAmountsById activeKeysetId)
  let (sendAmount, change) ←
    .lift (w.sendAndChange call.includeFees activeKeysetId call.amount change feeAndAmounts)
  let target ← .read (w.changeSplitTarget call.target change feeAndAmounts)
  let needed ← .lift (w.totalSecretsNeeded call.conditions sendAmount change target feeAndAmounts)
  let start ← reserveCounter activeKeysetId needed
  let (messages, derivedSecretCount) ← .lift (w.desiredMessages call.conditions activeKeysetId
    start sendAmount change target feeAndAmounts)
  let preMints := sortSecrets messages
  pure
    { keysetId := activeKeysetId
      preMints := preMints
      swapRequest := ⟨call.proofs, preMints.map PreMint.blindedMessage⟩
      derivedSecretCount := derivedSecretCount
      fee := fee }

/-- `Wallet::create_swap`. -/
def createSwap (call : SwapCall) : Proc Store Error PreSwap := do
  let (activeKeysetId, proofsTotal, ys) ← .lift (w.beforeReserving call)
  Proc.write (Store.updateProofsState ys .reserved)
  w.behindReserving call activeKeysetId proofsTotal

/-! ## Melts -/

/-- A stored melt quote, as far as a melt of proofs reads it. -/
structure MeltQuoteInfo where
  amount : Amount
  feeReserve : Amount
  expiry : Nat
  paymentMethod : PaymentMethod
deriving DecidableEq, Repr

/-- The request of a melt. -/
structure MeltMessage where
  quote : String
  inputs : List Proof
  outputs : Option (List BlindedMessage)
deriving DecidableEq, Repr

/-- `PreMintSecrets::from_seed_blank`. -/
def preMintsFromSeedBlank (id : Id) (counter : Nat) (amount : Amount) :
    Outcome Error (List PreMint) :=
  if amount ≤ .zero then .ok []
  else w.deriveAll id counter (List.replicate (max (w.machine.log2Ceil amount) 1) .zero)

/-- What `melt_proofs_with_metadata` does before the proofs are pending. -/
def beforePending (quoteInfo : Option MeltQuoteInfo) (now : Nat) (proofs : List Proof) :
    Outcome Error (MeltQuoteInfo × Amount × List PublicKey) := do
  let quote ← Outcome.ofOption (.cdk .unknownQuote) quoteInfo
  Outcome.ensure (now < quote.expiry) .expiredQuote
  let proofsTotal ← total proofs
  let needed ← quote.amount.add quote.feeReserve
  if proofsTotal < needed then .err (.cdk .insufficientFunds) else do
    let ys ← w.ys proofs
    .ok (quote, proofsTotal, ys)

/-- The secrets of the change. -/
def blankPreMints (id : Id) (changeAmount : Amount) : Proc Store Error (List PreMint) :=
  if changeAmount ≤ .zero then pure []
  else do
    let numSecrets := Counters.asU32 (max (w.machine.log2Ceil changeAmount) 1)
    let newCounter ← Proc.transact (Store.incrementKeysetCounter id numSecrets)
    .lift (w.preMintsFromSeedBlank id (newCounter - numSecrets) changeAmount)

/-- What it does behind that, up to the request. -/
def behindPending (quoteId : String) (proofs : List Proof) (quote : MeltQuoteInfo)
    (proofsTotal : Amount) : Proc Store Error MeltMessage := do
  let activeKeysetId ← .lift w.fetchActiveKeyset
  let changeAmount ← .lift (proofsTotal.sub quote.amount)
  let preMints ← w.blankPreMints activeKeysetId changeAmount
  let request := ⟨quoteId, proofs, some (preMints.map PreMint.blindedMessage)⟩
  match quote.paymentMethod with
  | .custom _ => .lift (.err (.cdk .unsupportedPaymentMethod))
  | _ => pure request

/-- `Wallet::melt_proofs_with_metadata` up to the request, which is sent behind it. -/
def meltProofs (quoteId : String) (quoteInfo : Option MeltQuoteInfo) (now : Nat)
    (proofs : List Proof) : Proc Store Error MeltMessage := do
  let (quote, proofsTotal, ys) ← .lift (w.beforePending quoteInfo now proofs)
  Proc.write (Store.updateProofsState ys .pending)
  w.behindPending quoteId proofs quote proofsTotal

end Operations

/-! ## What is kept

Before their requests a swap and a melt change the states of their proofs, and counters. -/

section Kept

variable (w : Wallet)

theorem keeps_proofs_increment (id : Id) (count : Nat) :
    Proc.Keeps Store.proofs (Proc.transact (Store.incrementKeysetCounter id count)) := by
  apply Proc.Keeps.transact
  intro s newCounter s' h
  unfold Store.incrementKeysetCounter at h
  dsimp only at h
  split at h <;> cases h
  rfl

theorem keeps_proofs_reserveCounter (id : Id) (needed : Nat) :
    Proc.Keeps Store.proofs (reserveCounter id needed) := by
  unfold reserveCounter
  split
  · apply Proc.Keeps.bind (keeps_proofs_increment id needed)
    intro newCounter
    exact Proc.Keeps.pure _
  · exact Proc.Keeps.pure _

/-- Behind its reservation a swap changes no proof. -/
theorem keeps_proofs_behindReserving (call : SwapCall) (id : Id) (proofsTotal : Amount) :
    Proc.Keeps Store.proofs (w.behindReserving call id proofsTotal) := by
  apply Proc.Keeps.bind (Proc.Keeps.lift _)
  intro fee
  apply Proc.Keeps.bind (Proc.Keeps.lift _)
  intro change
  apply Proc.Keeps.bind (Proc.Keeps.lift _)
  intro feeAndAmounts
  apply Proc.Keeps.bind (Proc.Keeps.lift _)
  rintro ⟨sendAmount, left⟩
  apply Proc.Keeps.bind (Proc.Keeps.read _)
  intro target
  apply Proc.Keeps.bind (Proc.Keeps.lift _)
  intro needed
  apply Proc.Keeps.bind (keeps_proofs_reserveCounter _ _)
  intro start
  apply Proc.Keeps.bind (Proc.Keeps.lift _)
  rintro ⟨messages, derivedSecretCount⟩
  exact Proc.Keeps.pure _

theorem keeps_proofs_blankPreMints (id : Id) (changeAmount : Amount) :
    Proc.Keeps Store.proofs (w.blankPreMints id changeAmount) := by
  unfold blankPreMints
  split
  · exact Proc.Keeps.pure _
  · apply Proc.Keeps.bind (keeps_proofs_increment _ _)
    intro newCounter
    exact Proc.Keeps.lift _

/-- Once its proofs are pending a melt changes no proof before its request. -/
theorem keeps_proofs_behindPending (quoteId : String) (proofs : List Proof) (quote : MeltQuoteInfo)
    (proofsTotal : Amount) :
    Proc.Keeps Store.proofs (w.behindPending quoteId proofs quote proofsTotal) := by
  apply Proc.Keeps.bind (Proc.Keeps.lift _)
  intro activeKeysetId
  apply Proc.Keeps.bind (Proc.Keeps.lift _)
  intro changeAmount
  apply Proc.Keeps.bind (keeps_proofs_blankPreMints w _ _)
  intro preMints
  cases quote.paymentMethod with
  | custom _ => exact Proc.Keeps.lift _
  | bolt11 => exact Proc.Keeps.pure _
  | bolt12 => exact Proc.Keeps.pure _

end Kept

end Wallet

end Cdk
