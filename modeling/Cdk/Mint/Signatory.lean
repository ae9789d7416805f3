import Cdk.Nuts.Htlc

/-!
# Keysets and the signatory

The keysets of the mint, the errors of the mint and of its database, signing
and the verification of proofs, and the input fee.
-/

namespace Cdk

open Lib

/-- Errors of the state transition rules. -/
inductive StateError where
  | pending
  | alreadySpent
  | alreadyPaid
  | invalidTransition (current new : State)
  | invalidMeltQuoteTransition (current new : MeltQuoteState)
deriving DecidableEq, Repr

/-- Errors of the mint database. -/
inductive DbError where
  | duplicate
  | attemptUpdateSpentProof
  | attemptRemoveSpentProof
  | proofNotFound
  | invalidStateTransition (error : StateError)
  | quoteNotFound
  | amountOverflow
  | internal
  /-- A constraint of the schema or a failing call of the database itself. -/
  | database
  | nut00
deriving DecidableEq, Repr

/-- Errors of the signature on a mint request. -/
inductive Nut20Error where
  | signatureMissing
  | invalidSignature
  | nut01
deriving DecidableEq, Repr

/-- Errors of the mint. -/
inductive Error where
  | duplicateInputs
  | duplicateOutputs
  | unknownKeySet
  | keysetUnknown (id : Id)
  | inactiveKeyset
  | multipleUnits
  | unitMismatch
  | unsupportedUnit
  | amountOverflow
  | transactionUnbalanced (inputs outputs fee : Nat)
  | blindedMessageAlreadySigned
  | tokenPending
  | tokenAlreadySpent
  | signatureMissingOrInvalid
  | dhke
  | nut00
  | nut11 (error : Nut11Error)
  | nut14 (error : Nut14Error)
  | nut20 (error : Nut20Error)
  | database (error : DbError)
  | unknownQuote
  | unpaidQuote
  | issuedQuote
  | paidQuote
  | pendingQuote
  | unknownPaymentState
  | unsupportedPaymentMethod
  | amountUndefined
  | incorrectQuoteAmount
  | cannotConvertUnits
  | invoiceAmountUndefined
  | duplicatePaymentId
  | insufficientFunds
  | requestAlreadyPaid
  | paymentFailed
  | clearAuthRequired
  | blindAuthRequired
  | oidcNotSet
  | oidc
  | authSettingsUndefined
  | amountOutofLimitRange (min max got : Nat)
  | amountKey
  | meltingDisabled
  | internalMultiPartMeltQuote
  | mppUnitMethodNotSupported (unit : CurrencyUnit) (method : PaymentMethod)
  | amountlessInvoiceNotSupported (unit : CurrencyUnit) (method : PaymentMethod)
  | internal
deriving DecidableEq, Repr

/-- `From<database::Error>`. -/
def Error.ofDb : DbError → Error
  | .invalidStateTransition .pending => .tokenPending
  | .invalidStateTransition .alreadySpent => .tokenAlreadySpent
  | e => .database e

/-- A keyset with the amounts it has keys for, in ascending order. -/
structure KeySet where
  id : Id
  unit : CurrencyUnit
  active : Bool
  inputFeePpk : Nat
  amounts : List Amount
deriving DecidableEq, Repr

/-- The keysets the mint knows. -/
abbrev Keysets := List KeySet

namespace Keysets

/-- `Mint::get_keyset_info`. -/
def info (keysets : Keysets) (id : Id) : Option KeySet := keysets.find? fun k => k.id = id

/-- The unit of a keyset. -/
def unitOf (keysets : Keysets) (id : Id) : Option CurrencyUnit :=
  (keysets.info id).map KeySet.unit

theorem unitOf_eq_some {keysets : Keysets} {id : Id} {unit : CurrencyUnit} :
    keysets.unitOf id = some unit ↔ ∃ keyset, keysets.info id = some keyset ∧ keyset.unit = unit :=
  Option.map_eq_some_iff

/-- Keysets keep their units when their other fields change and when keysets are added. -/
theorem unitOf_map_append {keysets added : Keysets} {f : KeySet → KeySet} {id : Id}
    {unit : CurrencyUnit} (hid : ∀ k, (f k).id = k.id) (hunit : ∀ k, (f k).unit = k.unit)
    (h : keysets.unitOf id = some unit) :
    unitOf (keysets.map f ++ added) id = some unit := by
  obtain ⟨keyset, hk, rfl⟩ := unitOf_eq_some.mp h
  have hmap : (keysets.map f).find? (fun k => k.id = id) = some (f keyset) := by
    have hsame : (fun k => decide ((f k).id = id)) = fun k => decide (k.id = id) := by
      funext k
      rw [hid]
    rw [List.find?_map, Function.comp_def, hsame]
    exact congrArg (Option.map f) hk
  refine unitOf_eq_some.mpr ⟨f keyset, ?_, hunit keyset⟩
  rw [info, List.find?_append, hmap, Option.some_or]

end Keysets

section Signatory

variable (env : Env) (keysets : Keysets)

/-- Sign one message. -/
def signOne (message : BlindedMessage) : Outcome Error BlindSignature := do
  let keyset ← Outcome.ofOption .unknownKeySet (keysets.info message.keysetId)
  Outcome.ensure keyset.active .inactiveKeyset
  Outcome.ensure (message.amount ∈ keyset.amounts) .unknownKeySet
  let c ← Outcome.ofOption .dhke
    (env.signMessage message.keysetId message.amount message.blindedSecret)
  .ok ⟨message.amount, message.keysetId, c⟩

/-- `DbSignatory::blind_sign`. -/
def blindSign (messages : List BlindedMessage) : Outcome Error (List BlindSignature) :=
  messages.mapM (signOne env keysets)

/-- Verify the signature of one proof. -/
def verifyOne (proof : Proof) : Outcome Error Unit := do
  let keyset ← Outcome.ofOption .unknownKeySet (keysets.info proof.keysetId)
  Outcome.ensure (proof.amount ∈ keyset.amounts) .unknownKeySet
  .ensure (env.verifyMessage proof.keysetId proof.amount proof.c (utf8 proof.secret)) .dhke

/-- `DbSignatory::verify_proofs`. -/
def signatoryVerifyProofs (proofs : List Proof) : Outcome Error Unit :=
  proofs.forM (verifyOne env keysets)

variable {env keysets}

theorem signOne_eq_ok {message : BlindedMessage} {sig : BlindSignature}
    (h : signOne env keysets message = .ok sig) :
    (∃ keyset, keysets.info message.keysetId = some keyset ∧ keyset.active = true ∧
        message.amount ∈ keyset.amounts) ∧
      sig.amount = message.amount ∧ sig.keysetId = message.keysetId := by
  simp only [signOne, Outcome.bind_eq_ok, Outcome.ofOption_eq_ok, Outcome.ensure_eq_ok,
    decide_eq_true_eq, Outcome.ok.injEq] at h
  obtain ⟨keyset, hk, _, ha, _, hm, c, -, rfl⟩ := h
  exact ⟨⟨keyset, hk, ha, hm⟩, rfl, rfl⟩

/-- The signatures answer the messages one by one. -/
theorem blindSign_forall₂ {messages : List BlindedMessage} {sigs : List BlindSignature}
    (h : blindSign env keysets messages = .ok sigs) :
    List.Forall₂ (fun message sig => sig.amount = message.amount ∧
      sig.keysetId = message.keysetId) messages sigs := by
  apply (Outcome.forall₂_of_mapM h).imp
  intro message sig hsig
  exact (signOne_eq_ok hsig).2

theorem blindSign_amounts {messages : List BlindedMessage} {sigs : List BlindSignature}
    (h : blindSign env keysets messages = .ok sigs) :
    sigs.map BlindSignature.amount = messages.map BlindedMessage.amount := by
  have hall := blindSign_forall₂ h
  clear h
  induction hall with
  | nil => rfl
  | cons hm _ ih => rw [List.map_cons, List.map_cons, hm.1, ih]

end Signatory

/-! ## Fees -/

/-- Add the fee of one keyset; the product is taken without an overflow check. -/
def addFee (keysets : Keysets) (proofs : List Proof) (sum : Nat) (id : Id) :
    Outcome Error Nat := do
  let keyset ← Outcome.ofOption (.keysetUnknown id) (keysets.info id)
  let fee := keyset.inputFeePpk * (proofs.countP fun p => p.keysetId = id) % 2 ^ 64
  Outcome.ensure (sum + fee < 2 ^ 64) .amountOverflow
  .ok (sum + fee)

/-- `calculate_fee` over the proofs counted by keyset. -/
def calculateFee (keysets : Keysets) (proofs : List Proof) : Outcome Error Amount := do
  let sum ← (proofs.map Proof.keysetId).dedup.foldlM (addFee keysets proofs) 0
  Outcome.ensure (sum + 999 < 2 ^ 64) .amountOverflow
  .ofOption .amountOverflow (Amount.ofNat? ((sum + 999) / 1000))

/-- `Mint::get_proofs_fee`. -/
def getProofsFee (keysets : Keysets) (proofs : List Proof) : Outcome Error Amount := do
  proofs.forM fun p => do
    let _ ← Outcome.ofOption .unknownKeySet (keysets.info p.keysetId)
  calculateFee keysets proofs

end Cdk
