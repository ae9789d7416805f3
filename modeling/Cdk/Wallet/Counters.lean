import Cdk.Lib.Ranges
import Cdk.Lib.Runs
import Cdk.Amount
import Cdk.Wallet.Restore
import Mathlib.Data.Nat.Log

/-!
# Counters of deterministic secrets

The secrets of an output are derived from the seed, the keyset and an index. An
operation computes how many it will need, takes that many from the counter of
the keyset, and then lets `from_seed` split the amounts again and derive as many
as that split has parts. The number of parts is taken for a `u32` on the way to
the store, but not on the way to the derivation.
-/

namespace Cdk

open Lib

namespace Counters

/-! ## Splitting an amount -/

inductive SplitTarget where
  | none
  | value (amount : Amount)
  | values (values : List Amount)
deriving DecidableEq, Repr

structure FeeAndAmounts where
  fee : Nat
  amounts : List Amount
deriving DecidableEq, Repr

inductive Error where
  | amountOverflow
  | splitValuesGreater
  | insufficientFunds
  | amountUndefined
  | derivation
deriving DecidableEq, Repr

/-- The inner loop of a target value, with the parts so far and their total. -/
def addValueParts (amount : Amount) (denominations : List Amount) :
    List Amount → List Amount × Amount → Outcome Error (List Amount × Amount)
  | [], acc => .ok acc
  | part :: rest, (parts, partsTotal) => do
      let next ← part.add partsTotal
      let parts ← if next ≤ amount then .ok (parts ++ [part]) else do
        let amountLeft ← amount.sub partsTotal
        let more ← amountLeft.split denominations
        .ok (parts ++ more)
      let partsTotal ← Outcome.ofOption .amountOverflow (Amount.trySum parts)
      if partsTotal = amount then .ok (parts, partsTotal)
      else addValueParts amount denominations rest (parts, partsTotal)

/-- The outer loop of a target value. It need not end: where the parts of the value do not add up
to the amount, it does not come back for any number of rounds. -/
def fillValue (amount : Amount) (denominations partsOfValue : List Amount) :
    Nat → List Amount × Amount → Outcome Error (List Amount)
  | 0, _ => .panic
  | rounds + 1, acc =>
      if acc.2 < amount then do
        let acc ← addValueParts amount denominations partsOfValue acc
        fillValue amount denominations partsOfValue rounds acc
      else .ok acc.1

def sortAmounts (parts : List Amount) : List Amount := parts.insertionSort fun a b => a ≤ b

/-- `Amount::split_targeted`, with a number of rounds for the loop of a target value. -/
def splitTargeted (rounds : Nat) (amount : Amount) (target : SplitTarget)
    (feeAndAmounts : FeeAndAmounts) : Outcome Error (List Amount) :=
  match target with
  | .none => do
      let parts ← amount.split feeAndAmounts.amounts
      .ok (sortAmounts parts)
  | .value value =>
      if amount ≤ value then amount.split feeAndAmounts.amounts
      else do
        let partsOfValue ← value.split feeAndAmounts.amounts
        let parts ← fillValue amount feeAndAmounts.amounts partsOfValue rounds ([], .zero)
        .ok (sortAmounts parts)
  | .values values => do
      let valuesTotal ← Outcome.ofOption .amountOverflow (Amount.trySum values)
      if amount < valuesTotal then .err .splitValuesGreater
      else if amount = valuesTotal then .ok (sortAmounts values)
      else do
        let extra ← amount.sub valuesTotal
        let extraAmount ← extra.split feeAndAmounts.amounts
        .ok (sortAmounts (values ++ extraAmount))

/-! ## Deriving secrets -/

/-- The conversion `as u32`. -/
def asU32 (n : Nat) : Nat := n % 2 ^ 32

/-- `+` on `u32`, which panics on overflow. -/
def addCounter (a b : Nat) : Outcome Error Nat := (addU32 a b).mapErr fun _ => .derivation

/-- What the program runs with: a bound for the rounds of a split, and the number
`(amount as f64).log2().ceil() as u64`. -/
structure Machine where
  rounds : Nat
  log2Ceil : Amount → Nat

/-- The arguments of a call that derives secrets, without the keyset and the seed. -/
inductive SeedCall where
  | fromSeed (counter : Nat) (amount : Amount) (target : SplitTarget)
      (feeAndAmounts : FeeAndAmounts)
  | fromSeedBlank (counter : Nat) (amount : Amount)
deriving DecidableEq, Repr

namespace SeedCall

/-- The number of rounds of the loop of the call. -/
def count (machine : Machine) : SeedCall → Outcome Error Nat
  | fromSeed _ amount target feeAndAmounts => do
      let parts ← splitTargeted machine.rounds amount target feeAndAmounts
      .ok parts.length
  | fromSeedBlank _ amount =>
      .ok (if amount ≤ .zero then 0 else max (machine.log2Ceil amount) 1)

def counter : SeedCall → Nat
  | fromSeed counter .. => counter
  | fromSeedBlank counter _ => counter

/-- `PreMintSecrets::from_seed` and `PreMintSecrets::from_seed_blank`. -/
def run (machine : Machine) (derivation : Derivation) (c : SeedCall) :
    Outcome Error (List PublicKey) := do
  let count ← c.count machine
  (Cdk.fromSeed derivation c.counter count).mapErr fun _ => .derivation

/-- The indices that a call is to derive. -/
def indices (machine : Machine) (c : SeedCall) : List Nat :=
  List.range' c.counter ((c.count machine).getD 0)

end SeedCall

/-! ## The operations

An operation first asks the store for a number of indices, or for none, and goes
on from the start of the range that it gets. -/

structure Plan where
  reserve : Option Nat
  calls : Nat → List SeedCall

/-- A call of `Wallet::create_swap`, with what it reads of the wallet and its store. -/
structure CreateSwap where
  derivation : Derivation
  activeKeysetId : Id
  amount : Option Amount
  amountSplitTarget : SplitTarget
  proofsTotal : Amount
  fee : Amount
  spendingConditions : Bool
  includeFees : Bool
  feeAndAmounts : FeeAndAmounts
  inputFeePpk : Nat
  amountsNeeded : List Amount

/-- `Wallet::get_keyset_count_fee`, whose multiplication panics on overflow. -/
def keysetCountFee (inputFeePpk count : Nat) : Outcome Error Amount :=
  if inputFeePpk * count < 2 ^ 64 then
    Outcome.expect (Amount.ofNat? ((inputFeePpk * count + 999) / 1000))
  else .panic

/-- `Wallet::determine_split_target_values` for the amounts that are needed. -/
def determineSplitTargetValues (amountsNeeded : List Amount) (changeAmount : Amount) :
    Outcome Error SplitTarget := do
  let values ← (sortAmounts amountsNeeded).foldlM (fun values amount => do
    let valuesSum ← Outcome.ofOption .amountOverflow (Amount.trySum values)
    let next ← valuesSum.add amount
    .ok (if next ≤ changeAmount then values ++ [amount] else values)) []
  .ok (.values values)

namespace CreateSwap

variable (machine : Machine) (c : CreateSwap)

/-- The amounts to send and of the change; an error of the split is unwrapped. -/
def amounts : Outcome Error (Option Amount × Amount) := do
  let totalToSubtract ← Outcome.ofOption .amountOverflow ((c.amount.getD .zero).checkedAdd c.fee)
  let changeAmount ← Outcome.ofOption .insufficientFunds (c.proofsTotal.checkedSub totalToSubtract)
  if c.includeFees then
    match splitTargeted machine.rounds (c.amount.getD .zero) .none c.feeAndAmounts with
    | .ok split => do
        let feeToRedeem ← keysetCountFee c.inputFeePpk split.length
        let sendAmount ← c.amount.mapM fun a =>
          Outcome.ofOption .amountOverflow (a.checkedAdd feeToRedeem)
        let changeAmount ← Outcome.ofOption .insufficientFunds
          (changeAmount.checkedSub feeToRedeem)
        .ok (sendAmount, changeAmount)
    | _ => .panic
  else .ok (c.amount, changeAmount)

def changeSplitTarget (changeAmount : Amount) : Outcome Error SplitTarget :=
  match c.amountSplitTarget with
  | .none => determineSplitTargetValues c.amountsNeeded changeAmount
  | target => .ok target

def totalSecretsNeeded (sendAmount : Option Amount) (changeAmount : Amount) (target : SplitTarget) :
    Outcome Error Nat :=
  if c.spendingConditions then do
    let change ← splitTargeted machine.rounds changeAmount target c.feeAndAmounts
    .ok (asU32 change.length)
  else do
    let send ← splitTargeted machine.rounds (sendAmount.getD .zero) .none c.feeAndAmounts
    let change ← splitTargeted machine.rounds changeAmount target c.feeAndAmounts
    addCounter (asU32 send.length) (asU32 change.length)

/-- The secrets of the change are derived from where those to send end. -/
def calls (sendAmount : Option Amount) (changeAmount : Amount) (target : SplitTarget)
    (startingCounter : Nat) : List SeedCall :=
  if c.spendingConditions then [.fromSeed startingCounter changeAmount target c.feeAndAmounts]
  else
    let send := .fromSeed startingCounter (sendAmount.getD .zero) .none c.feeAndAmounts
    let count : Outcome Error Nat := do
      let premintSecrets ← send.run machine c.derivation
      addCounter startingCounter (asU32 premintSecrets.length)
    match count with
    | .ok count => [send, .fromSeed count changeAmount target c.feeAndAmounts]
    | _ => [send]

/-- `Wallet::create_swap` as far as it derives secrets. -/
def plan : Outcome Error Plan := do
  let (sendAmount, changeAmount) ← c.amounts machine
  let target ← c.changeSplitTarget changeAmount
  let needed ← c.totalSecretsNeeded machine sendAmount changeAmount target
  .ok ⟨if 0 < needed then some needed else none, c.calls machine sendAmount changeAmount target⟩

end CreateSwap

/-- A call of `Wallet::mint`, with what it reads of the quote and the wallet. -/
structure Mint where
  derivation : Derivation
  activeKeysetId : Id
  amountMintable : Amount
  amountSplitTarget : SplitTarget
  spendingConditions : Bool
  feeAndAmounts : FeeAndAmounts

/-- `Wallet::mint` as far as it derives secrets; those of spending conditions are random. -/
def Mint.plan (machine : Machine) (c : Mint) : Outcome Error Plan :=
  if c.amountMintable = .zero then .err .amountUndefined
  else if c.spendingConditions then .ok ⟨none, fun _ => []⟩
  else do
    let amountSplit ←
      splitTargeted machine.rounds c.amountMintable c.amountSplitTarget c.feeAndAmounts
    .ok ⟨some (asU32 amountSplit.length),
      fun count => [.fromSeed count c.amountMintable c.amountSplitTarget c.feeAndAmounts]⟩

/-- A call of `Wallet::melt_proofs`, with what it reads of the quote. -/
structure MeltProofs where
  derivation : Derivation
  activeKeysetId : Id
  proofsTotal : Amount
  quoteAmount : Amount
  feeReserve : Amount

/-- `Wallet::melt_proofs_with_metadata` as far as it derives secrets. -/
def MeltProofs.plan (machine : Machine) (c : MeltProofs) : Outcome Error Plan := do
  let needed ← c.quoteAmount.add c.feeReserve
  Outcome.ensure (needed ≤ c.proofsTotal) .insufficientFunds
  let changeAmount ← c.proofsTotal.sub c.quoteAmount
  .ok (if changeAmount ≤ .zero then ⟨none, fun _ => []⟩
    else ⟨some (asU32 (max (machine.log2Ceil changeAmount) 1)),
      fun count => [.fromSeedBlank count changeAmount]⟩)

inductive Operation where
  | createSwap (c : CreateSwap)
  | mint (c : Mint)
  | meltProofs (c : MeltProofs)

namespace Operation

def keysetId : Operation → Id
  | createSwap c => c.activeKeysetId
  | mint c => c.activeKeysetId
  | meltProofs c => c.activeKeysetId

def plan (machine : Machine) : Operation → Outcome Error Plan
  | createSwap c => c.plan machine
  | mint c => c.plan machine
  | meltProofs c => c.plan machine

/-- The splits that an operation derives secrets for have fewer than 2^32 parts. -/
def FewParts (machine : Machine) : Operation → Prop
  | createSwap c => ∀ sendAmount changeAmount target parts,
      c.amounts machine = .ok (sendAmount, changeAmount) →
      c.changeSplitTarget changeAmount = .ok target →
      splitTargeted machine.rounds changeAmount target c.feeAndAmounts = .ok parts ∨
        c.spendingConditions = false ∧
          splitTargeted machine.rounds (sendAmount.getD .zero) .none c.feeAndAmounts = .ok parts →
      parts.length < 2 ^ 32
  | mint c => ∀ parts,
      splitTargeted machine.rounds c.amountMintable c.amountSplitTarget c.feeAndAmounts = .ok parts →
      parts.length < 2 ^ 32
  | meltProofs c => ∀ changeAmount, c.proofsTotal.checkedSub c.quoteAmount = some changeAmount →
      machine.log2Ceil changeAmount < 2 ^ 32

end Operation

/-! ## Runs

Operations of any number of wallets run on one store. An operation that fails is
one that makes no further step. -/

/-- An operation behind its call of `increment_keyset_counter`. -/
structure Running where
  operation : Operation
  newCounter : Nat
  reserved : Nat
  pending : List SeedCall
  passed : List SeedCall

/-- The range that an operation has reserved. -/
def Running.range (r : Running) : Range Id :=
  ⟨r.operation.keysetId, r.newCounter - r.reserved, r.reserved⟩

structure CounterState where
  counters : Id → Nat
  running : List Running

inductive Action where
  | reserve (operation : Operation)
  | call (position : Nat)

/-- An operation reserves its range, or makes the next of its calls. -/
def step (machine : Machine) (s : CounterState) : Action → CounterState
  | .reserve operation =>
      match operation.plan machine with
      | .ok ⟨none, calls⟩ => { s with running := s.running ++ [⟨operation, 0, 0, calls 0, []⟩] }
      | .ok ⟨some n, calls⟩ =>
          let newCounter := s.counters operation.keysetId + n
          if newCounter < 2 ^ 32 then
            { counters := Function.update s.counters operation.keysetId newCounter
              running := s.running ++ [⟨operation, newCounter, n, calls (newCounter - n), []⟩] }
          else s
      | _ => s
  | .call position =>
      match s.running[position]? with
      | some ⟨operation, newCounter, n, c :: pending, passed⟩ =>
          let next : Running := ⟨operation, newCounter, n, pending, passed ++ [c]⟩
          { s with running := s.running.set position next }
      | _ => s

/-- The indices of a keyset that have been passed. -/
def passedIndices (machine : Machine) (s : CounterState) (id : Id) : List Nat :=
  s.running.flatMap fun r =>
    if r.operation.keysetId = id then r.passed.flatMap (SeedCall.indices machine) else []

/-- No index of a keyset is passed twice, and each was reserved by the operation that passes it. -/
structure NeverShared (machine : Machine) (s : CounterState) : Prop where
  once : ∀ id, (passedIndices machine s id).Nodup
  reserved : ∀ r ∈ s.running, ∀ c ∈ r.passed, ∀ i ∈ c.indices machine,
    r.newCounter - r.reserved ≤ i ∧ i < r.newCounter

/-! ## What a call derives -/

section Calls

variable {machine : Machine} {derivation : Derivation}

/-- What is derived from a counter are the messages of as many indices from it on. -/
theorem forall₂_of_fromSeed {counter count : Nat} {messages : List PublicKey}
    (h : Cdk.fromSeed derivation counter count = .ok messages) :
    List.Forall₂ (fun i message => derivation i = some message) (List.range' counter count)
      messages := by
  induction count generalizing counter messages with
  | zero =>
      cases h
      exact .nil
  | succ count ih =>
      simp only [Cdk.fromSeed, Outcome.bind_eq_ok, Outcome.ofOption_eq_ok, addU32_eq_ok,
        Outcome.ok.injEq] at h
      obtain ⟨first, hfirst, next, ⟨-, rfl⟩, rest, hrest, rfl⟩ := h
      exact .cons hfirst (ih hrest)

/-- A call derives the messages of its indices. -/
theorem SeedCall.forall₂_of_run {c : SeedCall} {messages : List PublicKey}
    (h : c.run machine derivation = .ok messages) :
    List.Forall₂ (fun i message => derivation i = some message) (c.indices machine) messages := by
  simp only [SeedCall.run, Outcome.bind_eq_ok, Outcome.mapErr_eq_ok] at h
  obtain ⟨count, hcount, h⟩ := h
  rw [SeedCall.indices, hcount]
  exact forall₂_of_fromSeed h

theorem addCounter_eq_ok {a b n : Nat} : addCounter a b = .ok n ↔ a + b < 2 ^ 32 ∧ n = a + b := by
  rw [addCounter, Outcome.mapErr_eq_ok, addU32_eq_ok]

theorem asU32_of_lt {n : Nat} (h : n < 2 ^ 32) : asU32 n = n := Nat.mod_eq_of_lt h

theorem SeedCall.indices_fromSeed {counter : Nat} {amount : Amount} {target : SplitTarget}
    {feeAndAmounts : FeeAndAmounts} {parts : List Amount}
    (h : splitTargeted machine.rounds amount target feeAndAmounts = .ok parts) :
    (SeedCall.fromSeed counter amount target feeAndAmounts).indices machine =
      List.range' counter parts.length := by
  simp only [SeedCall.indices, SeedCall.count, SeedCall.counter, h, Outcome.bind_ok,
    Outcome.getD]

/-- The calls of a swap pass indices from the start of its range on, no more than it has
reserved. -/
theorem CreateSwap.calls_prefix {c : CreateSwap} {sendAmount : Option Amount}
    {changeAmount : Amount} {target : SplitTarget} {needed : Nat}
    (hamounts : c.amounts machine = .ok (sendAmount, changeAmount))
    (htarget : c.changeSplitTarget changeAmount = .ok target)
    (hneeded : c.totalSecretsNeeded machine sendAmount changeAmount target = .ok needed)
    (hfew : (Operation.createSwap c).FewParts machine) (start : Nat) :
    (c.calls machine sendAmount changeAmount target start).flatMap (SeedCall.indices machine) <+:
      List.range' start needed := by
  have hfew := fun parts => hfew sendAmount changeAmount target parts hamounts htarget
  unfold CreateSwap.totalSecretsNeeded at hneeded
  unfold CreateSwap.calls
  split at hneeded
  next hconditions =>
    simp only [Outcome.bind_eq_ok, Outcome.ok.injEq] at hneeded
    obtain ⟨change, hchange, rfl⟩ := hneeded
    rw [if_pos hconditions, List.flatMap_singleton, SeedCall.indices_fromSeed hchange,
      asU32_of_lt (hfew change (.inl hchange))]
  next hconditions =>
    simp only [Outcome.bind_eq_ok, addCounter_eq_ok] at hneeded
    obtain ⟨send, hsend, change, hchange, -, rfl⟩ := hneeded
    have hsendFew := hfew send (.inr ⟨Bool.eq_false_iff.mpr hconditions, hsend⟩)
    rw [if_neg hconditions, asU32_of_lt hsendFew, asU32_of_lt (hfew change (.inl hchange)),
      ← List.range'_append_1]
    dsimp only
    split
    next count hcount =>
      simp only [Outcome.bind_eq_ok, addCounter_eq_ok] at hcount
      obtain ⟨premintSecrets, hrun, -, rfl⟩ := hcount
      have hlength := (SeedCall.forall₂_of_run hrun).length_eq
      rw [SeedCall.indices_fromSeed hsend, List.length_range'] at hlength
      rw [List.flatMap_cons, List.flatMap_singleton, SeedCall.indices_fromSeed hsend,
        SeedCall.indices_fromSeed hchange, ← hlength, asU32_of_lt hsendFew]
    next =>
      rw [List.flatMap_singleton, SeedCall.indices_fromSeed hsend]
      exact List.prefix_append _ _

theorem Mint.calls_prefix {c : Mint} {plan : Plan} (hplan : c.plan machine = .ok plan)
    (hfew : (Operation.mint c).FewParts machine) (start : Nat) :
    (plan.calls start).flatMap (SeedCall.indices machine) <+:
      List.range' start (plan.reserve.getD 0) := by
  unfold Mint.plan at hplan
  split at hplan
  next => cases hplan
  next =>
    split at hplan
    next =>
      cases hplan
      exact List.nil_prefix
    next =>
      simp only [Outcome.bind_eq_ok, Outcome.ok.injEq] at hplan
      obtain ⟨parts, hparts, rfl⟩ := hplan
      rw [List.flatMap_singleton, SeedCall.indices_fromSeed hparts, Option.getD_some,
        asU32_of_lt (hfew parts hparts)]

theorem MeltProofs.calls_prefix {c : MeltProofs} {plan : Plan}
    (hplan : c.plan machine = .ok plan)
    (hfew : (Operation.meltProofs c).FewParts machine) (start : Nat) :
    (plan.calls start).flatMap (SeedCall.indices machine) <+:
      List.range' start (plan.reserve.getD 0) := by
  simp only [MeltProofs.plan, Amount.sub, Outcome.bind_eq_ok, Outcome.expect_eq_ok,
    Outcome.ok.injEq] at hplan
  obtain ⟨_, -, _, -, changeAmount, hchange, rfl⟩ := hplan
  split
  next => exact List.nil_prefix
  next hpositive =>
    have hlog := hfew changeAmount hchange
    have hcount : asU32 (max (machine.log2Ceil changeAmount) 1) =
        max (machine.log2Ceil changeAmount) 1 := asU32_of_lt (by omega)
    rw [List.flatMap_singleton, Option.getD_some, hcount, SeedCall.indices, SeedCall.count,
      if_neg hpositive]
    rfl

/-- The calls of an operation pass indices of the range that it has reserved, each once. -/
theorem Operation.calls_prefix {operation : Operation} {plan : Plan}
    (hplan : operation.plan machine = .ok plan) (hfew : operation.FewParts machine) (start : Nat) :
    (plan.calls start).flatMap (SeedCall.indices machine) <+:
      List.range' start (plan.reserve.getD 0) := by
  cases operation with
  | createSwap c =>
      simp only [Operation.plan, CreateSwap.plan, Outcome.bind_eq_ok, Outcome.ok.injEq] at hplan
      obtain ⟨⟨sendAmount, changeAmount⟩, hamounts, target, htarget, needed, hneeded, rfl⟩ := hplan
      have hprefix := CreateSwap.calls_prefix hamounts htarget hneeded hfew start
      dsimp only
      split
      next => exact hprefix
      next hzero =>
        rw [Nat.le_zero.mp (Nat.not_lt.mp hzero)] at hprefix
        exact hprefix
  | mint c => exact Mint.calls_prefix hplan hfew start
  | meltProofs c => exact MeltProofs.calls_prefix hplan hfew start

end Calls

/-! ## Invariant -/

section Invariant

variable {machine : Machine} {s : CounterState}

/-- What an operation passes, now and later, lies at the start of its range. -/
def Running.Inside (machine : Machine) (r : Running) : Prop :=
  r.reserved ≤ r.newCounter ∧
    (r.passed ++ r.pending).flatMap (SeedCall.indices machine) <+: r.range.indices

/-- The ranges were taken from the counters. -/
structure Inv (machine : Machine) (s : CounterState) : Prop where
  handed : Range.Handed s.counters (s.running.map Running.range)
  inside : ∀ r ∈ s.running, r.Inside machine

theorem inv_init (machine : Machine) (counters : Id → Nat) : Inv machine ⟨counters, []⟩ :=
  ⟨.nil _, by simp⟩

/-- The condition of a step. -/
def StepFewParts (machine : Machine) (_ : CounterState) : Action → Prop
  | .reserve operation => operation.FewParts machine
  | .call _ => True

theorem reserve_inv (h : Inv machine s) {operation : Operation} (hfew : operation.FewParts machine) :
    Inv machine (step machine s (.reserve operation)) := by
  simp only [step]
  split
  next calls hplan =>
    have hprefix := operation.calls_prefix hplan hfew 0
    refine ⟨?_, ?_⟩
    · simpa [Running.range] using h.handed.skip operation.keysetId
    · intro r hr
      rcases List.mem_append.mp hr with hr | hr
      · exact h.inside r hr
      · rw [List.mem_singleton] at hr
        subst hr
        exact ⟨le_rfl, hprefix⟩
  next n calls hplan =>
    have hprefix := operation.calls_prefix hplan hfew (s.counters operation.keysetId)
    split
    next =>
      refine ⟨?_, ?_⟩
      · simpa [Running.range] using h.handed.take operation.keysetId n
      · intro r hr
        rcases List.mem_append.mp hr with hr | hr
        · exact h.inside r hr
        · rw [List.mem_singleton] at hr
          subst hr
          refine ⟨Nat.le_add_left _ _, ?_⟩
          simpa [Running.range, Range.indices] using hprefix
    next => exact h
  next => exact h

/-- A call moves from what is pending to what has been passed. -/
theorem call_inv (h : Inv machine s) (position : Nat) :
    Inv machine (step machine s (.call position)) := by
  simp only [step]
  split
  next operation newCounter n c pending passed hget =>
    have hlt := (List.getElem?_eq_some_iff.mp hget).1
    have hold := (List.getElem?_eq_some_iff.mp hget).2
    have hmem : (⟨operation, newCounter, n, c :: pending, passed⟩ : Running) ∈ s.running :=
      List.mem_of_getElem? hget
    refine ⟨?_, ?_⟩
    · have hranges : (s.running.set position ⟨operation, newCounter, n, pending, passed ++ [c]⟩).map
          Running.range = s.running.map Running.range := by
        rw [List.map_set]
        have hlt' : position < (s.running.map Running.range).length := by rwa [List.length_map]
        have hrange : Running.range ⟨operation, newCounter, n, pending, passed ++ [c]⟩ =
            (s.running.map Running.range)[position] := by
          rw [List.getElem_map, hold]
          rfl
        rw [hrange, List.set_getElem_self]
      rw [hranges]
      exact h.handed
    · intro r hr
      rcases List.mem_or_eq_of_mem_set hr with hr | rfl
      · exact h.inside r hr
      · have hinside := h.inside _ hmem
        refine ⟨hinside.1, ?_⟩
        simpa [Running.range] using hinside.2
  next => exact h

theorem step_inv (s : CounterState) (a : Action) (h : Inv machine s)
    (hfew : StepFewParts machine s a) : Inv machine (step machine s a) := by
  cases a with
  | reserve operation => exact reserve_inv h hfew
  | call position => exact call_inv h position

/-- What an operation has passed is a part of its range. -/
theorem Running.Inside.sublist {r : Running} (h : r.Inside machine) :
    (r.passed.flatMap (SeedCall.indices machine)).Sublist r.range.indices := by
  have hprefix := h.2.sublist
  rw [List.flatMap_append] at hprefix
  exact (List.sublist_append_left _ _).trans hprefix

theorem passed_sublist {running : List Running} (h : ∀ r ∈ running, r.Inside machine) (id : Id) :
    (running.flatMap fun r => if r.operation.keysetId = id
      then r.passed.flatMap (SeedCall.indices machine) else []).Sublist
      (Range.taken (running.map Running.range) id) := by
  rw [Range.taken, List.flatMap_map]
  induction running with
  | nil => exact .refl _
  | cons r rest ih =>
      obtain ⟨hr, hrest⟩ := List.forall_mem_cons.mp h
      rw [List.flatMap_cons, List.flatMap_cons]
      apply List.Sublist.append _ (ih hrest)
      have hkey : r.range.key = r.operation.keysetId := rfl
      rw [hkey]
      split
      next => exact hr.sublist
      next => exact .refl _

theorem Inv.neverShared (h : Inv machine s) : NeverShared machine s where
  once := fun id => List.Nodup.sublist (passed_sublist h.inside id) (h.handed.nodup id)
  reserved := by
    intro r hr c hc i hi
    have hinside := h.inside r hr
    have hmem : i ∈ r.range.indices :=
      hinside.sublist.subset (List.mem_flatMap.mpr ⟨c, hc, hi⟩)
    obtain ⟨hlow, hhigh⟩ := Range.mem_indices.mp hmem
    have hle := hinside.1
    simp only [Running.range] at hlow hhigh
    exact ⟨hlow, by omega⟩

/-- In every run of operations on a store whose splits have fewer than 2^32 parts, no index of a
keyset is passed twice, and each lies in the range of its operation. -/
theorem neverShared_of_fewParts (machine : Machine) (counters : Id → Nat) {actions : List Action}
    (h : Along (step machine) (StepFewParts machine) ⟨counters, []⟩ actions) :
    NeverShared machine (run (step machine) ⟨counters, []⟩ actions) := by
  have hinv := @invariant_along CounterState Action (step machine) (StepFewParts machine)
    (Inv machine) step_inv _ _ (inv_init machine counters) h
  exact hinv.neverShared

end Invariant

/-! ## Two operations, and a split with too many parts -/

/-- Every index has a message, and a logarithm is rounded up. -/
def sampleMachine : Machine := ⟨1, fun amount => Nat.clog 2 amount.toNat⟩

def sampleMint (target : SplitTarget) : Operation :=
  .mint ⟨fun i => some ⟨false, BitVec.ofNat 256 i⟩, .v1 0, .one, target, false, ⟨0, [.one]⟩⟩

def sampleMelt : Operation :=
  .meltProofs ⟨fun i => some ⟨false, BitVec.ofNat 256 i⟩, .v1 0, 8, 2, 1⟩

theorem sampleMint_few : (sampleMint .none).FewParts sampleMachine := by
  intro parts h
  simp only [splitTargeted, Amount.split] at h
  rw [if_neg (by decide)] at h
  cases h
  rw [sortAmounts, List.length_insertionSort]
  decide

theorem sampleMelt_few : sampleMelt.FewParts sampleMachine := by
  intro changeAmount _
  exact (Nat.clog_le_of_le_pow changeAmount.isLt.le).trans_lt (by decide)

/-- A mint and a melt reserve their ranges before either makes its call, and another mint comes
between the calls. -/
theorem neverShared_of_fewParts_at_three :
    NeverShared sampleMachine (run (step sampleMachine) ⟨fun _ => 0, []⟩
      [.reserve (sampleMint .none), .reserve sampleMelt, .call 1, .reserve (sampleMint .none),
        .call 0, .call 2]) :=
  neverShared_of_fewParts sampleMachine _
    ⟨sampleMint_few, sampleMelt_few, trivial, sampleMint_few, trivial, trivial, trivial⟩

theorem trySum_zeros (k : Nat) : Amount.trySum (List.replicate k .zero) = some .zero := by
  unfold Amount.trySum
  induction k with
  | zero => rfl
  | succ k ih =>
      rw [List.replicate_succ, List.foldlM_cons]
      exact ih

/-- One is minted into any number of zeros and a one. -/
theorem split_zeros (k : Nat) :
    ∃ parts, splitTargeted sampleMachine.rounds .one (.values (List.replicate k .zero))
      ⟨0, [.one]⟩ = .ok parts ∧ parts.length = k + 1 := by
  refine ⟨sortAmounts (List.replicate k .zero ++ [.one]), ?_, ?_⟩
  · simp only [splitTargeted, trySum_zeros, Outcome.ofOption_some, Outcome.bind_ok]
    rfl
  · rw [sortAmounts, List.length_insertionSort, List.length_append, List.length_replicate]
    rfl

/-- A mint whose split has 2^32 + 1 parts reserves one index and passes all indices from the one
it has reserved on. -/
theorem not_neverShared_zeros {k : Nat} (hk : asU32 (k + 1) = 1) (hpos : 0 < k) :
    ¬ NeverShared sampleMachine (run (step sampleMachine) ⟨fun _ => 0, []⟩
      [.reserve (sampleMint (.values (List.replicate k .zero))), .call 0]) := by
  intro h
  obtain ⟨parts, hparts, hlength⟩ := split_zeros k
  have hplan : (sampleMint (.values (List.replicate k .zero))).plan sampleMachine =
      .ok ⟨some 1, fun count => [.fromSeed count .one (.values (List.replicate k .zero))
        ⟨0, [.one]⟩]⟩ := by
    have hone : Amount.one ≠ Amount.zero := by decide
    simp only [sampleMint, Operation.plan, Mint.plan, hparts, if_neg hone, Bool.false_eq_true,
      if_false, Outcome.bind_ok, hlength, hk]
  let c : SeedCall := .fromSeed 0 .one (.values (List.replicate k .zero)) ⟨0, [.one]⟩
  have hindices : c.indices sampleMachine = List.range' 0 parts.length :=
    SeedCall.indices_fromSeed hparts
  have hlast : 1 ∈ c.indices sampleMachine := by
    rw [hindices, hlength, List.mem_range'_1]
    omega
  simp only [run_cons, run_nil, step, hplan] at h
  have hreserved := h.reserved ⟨_, 1, 1, [], [c]⟩ (List.mem_singleton.mpr rfl) c
    (List.mem_singleton.mpr rfl) 1 hlast
  exact absurd hreserved.2 (lt_irrefl 1)

theorem shared_zeros :
    ∃ actions, ¬ NeverShared sampleMachine (run (step sampleMachine) ⟨fun _ => 0, []⟩ actions) :=
  ⟨_, not_neverShared_zeros (k := 2 ^ 32) (by decide) (by decide)⟩

end Counters

end Cdk
