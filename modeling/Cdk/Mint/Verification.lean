import Cdk.Mint.Database

/-!
# Verification of inputs and outputs

The checks a request passes before its transaction writes anything: inputs are
distinct, of one unit and signed by the mint, outputs are distinct, unsigned,
of one unit and of active keysets, and a swap is balanced after fees.
-/

namespace Cdk

open Lib

/-- A call inside a transaction that returns an error of the mint. -/
abbrev MintTx := Tx Db Error

/-- The value and the unit of one side of a request. -/
structure Verification where
  amount : Amount
  unit : Option CurrencyUnit
deriving DecidableEq, Repr

section Inputs

variable (env : Env) (keysets : Keysets)

/-- `ProofsMethods::ys`. -/
def ysOf (proofs : List Proof) : Outcome Error (List PublicKey) :=
  proofs.mapM fun p => Outcome.ofOption .nut00 (p.y env)

/-- `Mint::check_inputs_unique`. -/
def checkInputsUnique (inputs : List Proof) : Outcome Error Unit := do
  let ys ← ysOf env inputs
  .ensure ys.Nodup .duplicateInputs

/-- The only unit of a list of keysets. -/
def singleUnit (units : List CurrencyUnit) : Outcome Error CurrencyUnit :=
  match units.dedup with
  | [unit] => .ok unit
  | _ => .err .multipleUnits

/-- `Mint::verify_inputs_keyset`. -/
def verifyInputsKeyset (inputs : List Proof) : Outcome Error CurrencyUnit := do
  let units ← (inputs.map Proof.keysetId).dedup.mapM fun id => do
    let keyset ← Outcome.ofOption .unknownKeySet (keysets.info id)
    .ok keyset.unit
  singleUnit units

/-- The spending conditions of a proof; a secret of no known kind has none. -/
def verifySpendingConditions (now : Nat) (proof : Proof) : Outcome Error Unit :=
  match env.parseSecret proof.secret with
  | none => .ok ()
  | some secret =>
      match secret.kind with
      | .p2pk => (verifyP2pk env now proof).mapErr Error.nut11
      | .htlc => (verifyHtlc env now proof).mapErr Error.nut14

/-- `Mint::verify_proofs`. -/
def verifyProofs (now : Nat) (proofs : List Proof) : Outcome Error Unit := do
  proofs.forM (verifySpendingConditions env now)
  signatoryVerifyProofs env keysets proofs

/-- `Mint::verify_inputs`. -/
def verifyInputs (now : Nat) (inputs : List Proof) : Outcome Error Verification := do
  checkInputsUnique env inputs
  let unit ← verifyInputsKeyset keysets inputs
  let amount ← Outcome.ofOption .amountOverflow (Amount.trySum (inputs.map Proof.amount))
  verifyProofs env keysets now inputs
  .ok ⟨amount, some unit⟩

end Inputs

section Outputs

variable (keysets : Keysets)

/-- `Mint::verify_outputs_keyset`. -/
def verifyOutputsKeyset (outputs : List BlindedMessage) : Outcome Error CurrencyUnit := do
  let units ← (outputs.map BlindedMessage.keysetId).dedup.mapM fun id => do
    let keyset ← Outcome.ofOption .unknownKeySet (keysets.info id)
    Outcome.ensure keyset.active .inactiveKeyset
    .ok keyset.unit
  singleUnit units

/-- `Mint::check_output_already_signed`. -/
def checkOutputAlreadySigned (outputs : List BlindedMessage) : MintTx Unit := do
  let signed ← (Db.anySigned (outputs.map BlindedMessage.blindedSecret)).mapErr Error.ofDb
  Tx.ensure (!signed) .blindedMessageAlreadySigned

/-- `Mint::verify_outputs`. -/
def verifyOutputs (outputs : List BlindedMessage) : MintTx Verification :=
  if outputs = [] then pure ⟨.zero, none⟩
  else do
    Tx.ensure (outputs.map BlindedMessage.blindedSecret).Nodup .duplicateOutputs
    checkOutputAlreadySigned outputs
    let unit ← Tx.lift (verifyOutputsKeyset keysets outputs)
    let amount ← Tx.lift (Outcome.ofOption .amountOverflow
      (Amount.trySum (outputs.map BlindedMessage.amount)))
    pure ⟨amount, some unit⟩

/-- `Mint::verify_transaction_balanced`. -/
def verifyTransactionBalanced (input : Verification) (inputs : List Proof)
    (outputs : List BlindedMessage) : MintTx Unit := do
  let output ← verifyOutputs keysets outputs
  Tx.ensure (output.unit = input.unit) .unitMismatch
  let fees ← Tx.lift (getProofsFee keysets inputs)
  let rest ← Tx.lift (Outcome.ofOption .amountOverflow (input.amount.checkedSub fees))
  Tx.ensure (output.amount = rest)
    (.transactionUnbalanced input.amount.toNat output.amount.toNat fees.toNat)

end Outputs

/-! ## What the checks establish -/

section Facts

variable {env : Env} {keysets : Keysets}

theorem singleUnit_eq_ok {units : List CurrencyUnit} {unit : CurrencyUnit}
    (h : singleUnit units = .ok unit) : unit ∈ units ∧ ∀ u ∈ units, u = unit := by
  unfold singleUnit at h
  split at h
  next only hdedup =>
    cases h
    constructor
    · exact List.mem_dedup.mp (hdedup ▸ List.mem_singleton_self _)
    · intro u hu
      exact List.mem_singleton.mp (hdedup ▸ List.mem_dedup.mpr hu)
  next => cases h

/-- The unit of the inputs is the unit of each of their keysets. -/
theorem verifyInputsKeyset_eq_ok {inputs : List Proof} {unit : CurrencyUnit}
    (h : verifyInputsKeyset keysets inputs = .ok unit) :
    ∃ p ∈ inputs, ∃ keyset, keysets.info p.keysetId = some keyset ∧ keyset.unit = unit := by
  rw [verifyInputsKeyset, Outcome.bind_eq_ok] at h
  obtain ⟨units, hunits, hsingle⟩ := h
  obtain ⟨id, hid, hkeyset⟩ :=
    Outcome.exists_of_mem_mapM hunits (singleUnit_eq_ok hsingle).1
  obtain ⟨p, hp, rfl⟩ := List.mem_map.mp (List.mem_dedup.mp hid)
  simp only [Outcome.bind_eq_ok, Outcome.ofOption_eq_ok, Outcome.ok.injEq] at hkeyset
  exact ⟨p, hp, hkeyset⟩

theorem verifyOutputsKeyset_eq_ok {outputs : List BlindedMessage} {unit : CurrencyUnit}
    (h : verifyOutputsKeyset keysets outputs = .ok unit) :
    ∀ m ∈ outputs, ∃ keyset, keysets.info m.keysetId = some keyset ∧ keyset.unit = unit := by
  rw [verifyOutputsKeyset, Outcome.bind_eq_ok] at h
  obtain ⟨units, hunits, hsingle⟩ := h
  intro m hm
  obtain ⟨unit', hmem, hkeyset⟩ := Outcome.exists_mem_of_mapM hunits
    (List.mem_dedup.mpr (List.mem_map_of_mem hm))
  simp only [Outcome.bind_eq_ok, Outcome.ofOption_eq_ok, Outcome.ensure_eq_ok,
    Outcome.ok.injEq] at hkeyset
  obtain ⟨keyset, hk, _, -, rfl⟩ := hkeyset
  exact ⟨keyset, hk, (singleUnit_eq_ok hsingle).2 _ hmem⟩

theorem verifyInputs_eq_ok {now : Nat} {inputs : List Proof} {v : Verification}
    (h : verifyInputs env keysets now inputs = .ok v) :
    v.amount.toNat = Amount.total (inputs.map Proof.amount) ∧
      (∃ ys, ysOf env inputs = .ok ys ∧ ys.Nodup) ∧
      (∃ unit, v.unit = some unit ∧ verifyInputsKeyset keysets inputs = .ok unit) ∧
      verifyProofs env keysets now inputs = .ok () := by
  simp only [verifyInputs, checkInputsUnique, Outcome.bind_eq_ok, Outcome.ensure_eq_ok,
    decide_eq_true_eq, Outcome.ofOption_eq_ok, Outcome.ok.injEq] at h
  obtain ⟨_, ⟨ys, hys, hnd⟩, unit, hunit, amount, hsum, _, hproofs, rfl⟩ := h
  exact ⟨Amount.trySum_eq_total hsum, ⟨ys, hys, hnd⟩, ⟨unit, rfl, hunit⟩, hproofs⟩

theorem verifyOutputs_ok {outputs : List BlindedMessage} {v : Verification} {db db' : Db}
    (h : verifyOutputs keysets outputs db = .ok (v, db')) :
    db' = db ∧ v.amount.toNat = Amount.total (outputs.map BlindedMessage.amount) ∧
      (v.unit = none ↔ outputs = []) ∧ (outputs.map BlindedMessage.blindedSecret).Nodup := by
  unfold verifyOutputs at h
  split at h
  next hnil =>
    subst hnil
    rw [Tx.pure_ok] at h
    obtain ⟨rfl, rfl⟩ := h
    exact ⟨rfl, rfl, by simp, by simp⟩
  next hne =>
    simp only [Tx.bind_ok, Tx.ensure_ok, checkOutputAlreadySigned, Db.anySigned, Tx.mapErr_ok,
      Tx.read_ok, Tx.lift_ok, Tx.pure_ok, Outcome.ofOption_eq_ok, decide_eq_true_eq] at h
    obtain ⟨_, _, ⟨hnd, rfl⟩, _, _, ⟨_, _, ⟨-, rfl⟩, -, rfl⟩, unit, _, ⟨-, rfl⟩, amount, _,
      ⟨hsum, rfl⟩, rfl, rfl⟩ := h
    exact ⟨rfl, Amount.trySum_eq_total hsum, by simp [hne], hnd⟩

/-- Verified outputs are of known keysets. -/
theorem verifyOutputs_keysets {outputs : List BlindedMessage} {v : Verification} {db db' : Db}
    (h : verifyOutputs keysets outputs db = .ok (v, db')) :
    ∀ m ∈ outputs, ∃ keyset, keysets.info m.keysetId = some keyset := by
  unfold verifyOutputs at h
  split at h
  next hnil => simp [hnil]
  next hne =>
    simp only [Tx.bind_ok, Tx.lift_ok] at h
    obtain ⟨_, _, -, _, _, -, unit, _, ⟨hunit, -⟩, -⟩ := h
    intro m hm
    obtain ⟨keyset, hk, -⟩ := verifyOutputsKeyset_eq_ok hunit m hm
    exact ⟨keyset, hk⟩

/-- A balanced swap creates no more than its inputs carry. -/
theorem verifyTransactionBalanced_ok {input : Verification} {inputs : List Proof}
    {outputs : List BlindedMessage} {db db' : Db} {u : Unit}
    (h : verifyTransactionBalanced keysets input inputs outputs db = .ok (u, db')) :
    db' = db ∧ Amount.total (outputs.map BlindedMessage.amount) ≤ input.amount.toNat ∧
      (outputs.map BlindedMessage.blindedSecret).Nodup := by
  simp only [verifyTransactionBalanced, Tx.bind_ok, Tx.ensure_ok, Tx.lift_ok,
    Outcome.ofOption_eq_ok, decide_eq_true_eq] at h
  obtain ⟨output, _, hout, _, _, ⟨-, rfl⟩, fees, _, ⟨-, rfl⟩, rest, _, ⟨hsub, rfl⟩, hbal, rfl⟩ := h
  obtain ⟨rfl, hamount, -, hnd⟩ := verifyOutputs_ok hout
  refine ⟨rfl, ?_, hnd⟩
  have := Amount.checkedSub_eq_some.mp hsub
  rw [← hamount, hbal]
  omega

end Facts

end Cdk
