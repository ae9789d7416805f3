import Cdk.Mint.SigAllSwap
import Cdk.Nuts.HtlcLock

/-!
# Accepting a token offline

A wallet that accepts a token without asking the mint compares the spending
conditions of its proofs with the ones it expects, field by field. The fields
it leaves out are the kind, the hash, and a locktime without refund keys; keys
are compared as lists whose repetitions were removed for P2PK only.

What the mint then accepts is decided by the mint's own checks of each proof.
A token is safe when nobody gets past them before the expected locktime without
enough of the expected keys, and everybody who has enough of these keys does.
-/

namespace Cdk

open Lib

variable {SecretKey : Type}

namespace SpendingConditions

def conditions : SpendingConditions → Option Conditions
  | p2pk _ conditions => conditions
  | htlc _ conditions => conditions

/-- `SpendingConditions::num_sigs`. -/
def numSigs (spending : SpendingConditions) : Option Nat :=
  spending.conditions.bind Conditions.numSigs

/-- `SpendingConditions::locktime`. -/
def locktime (spending : SpendingConditions) : Option Nat :=
  spending.conditions.bind Conditions.locktime

/-- `SpendingConditions::refund_keys`. -/
def refundKeys (spending : SpendingConditions) : Option (List PublicKey) :=
  spending.conditions.bind Conditions.refundKeys

/-- The keys that the check of a token expects, with repetitions. -/
def expectedKeys : SpendingConditions → List PublicKey
  | p2pk data conditions => data :: (conditions.bind Conditions.pubkeys).getD []
  | htlc _ conditions => (conditions.bind Conditions.pubkeys).getD []

end SpendingConditions

/-- Errors of `verify_token_p2pk`. -/
inductive VerifyTokenError where
  | invalidSpendConditions (text : String)
  | incorrectWallet (text : String)
  | token
  | nut11 (error : Nut11Error)
  | p2pkConditionsNotMet (text : String)
  | locktimeNotProvided
deriving DecidableEq, Repr

/-- What `Token::mint_url` and `Token::proofs` return for the keysets of the wallet. -/
structure Token where
  mintUrl : Option String
  proofs : Option (List Proof)

/-- The refund keys of a proof against those that are expected. -/
def verifyRefundKeys (expected proof : SpendingConditions) : Outcome VerifyTokenError Unit :=
  match proof.refundKeys with
  | none => .ok ()
  | some proofRefundKeys => do
      let proofLocktime ← Outcome.ofOption .locktimeNotProvided proof.locktime
      match expected.refundKeys, expected.locktime with
      | some refundKeys, some locktime => do
          Outcome.ensure (!decide (proofLocktime < locktime))
            (.p2pkConditionsNotMet "Proof locktime less then required")
          Outcome.ensure (refundKeys = [] || proofRefundKeys.all fun key => key ∈ refundKeys)
            (.p2pkConditionsNotMet "Refund Key not allowed")
      | _, _ =>
          .err (.p2pkConditionsNotMet "Spending condition does not allow refund keys")

/-- One round of the loop over the proofs of the token. -/
def verifyTokenProof (env : Env) (expected : SpendingConditions) (proof : Proof) :
    Outcome VerifyTokenError Unit := do
  let conditions ← (SpendingConditions.tryFrom env proof.secret).mapErr VerifyTokenError.nut11
  Outcome.ensure (expected.numSigs = conditions.numSigs)
    (.p2pkConditionsNotMet "Num sigs did not match spending condition")
  let proofKeys := conditions.pubkeys.getD []
  Outcome.ensure (proofKeys.length = expected.expectedKeys.length &&
      proofKeys.all fun key => key ∈ expected.expectedKeys)
    (.p2pkConditionsNotMet "Pubkeys in proof not allowed by spending condition")
  verifyRefundKeys expected conditions

/-- `Wallet::verify_token_p2pk`. -/
def verifyTokenP2pk (env : Env) (mintUrl : String) (token : Token)
    (expected : SpendingConditions) : Outcome VerifyTokenError Unit := do
  Outcome.ensure (!(expected.refundKeys.isSome && expected.locktime.isNone))
    (.invalidSpendConditions "Must set locktime")
  let url ← Outcome.ofOption .token token.mintUrl
  Outcome.ensure (url = mintUrl) (.incorrectWallet ("Should be " ++ mintUrl ++ " not " ++ url))
  let proofs ← Outcome.ofOption .token token.proofs
  proofs.forM (verifyTokenProof env expected)

/-! ## What the check establishes -/

/-- What the check of a token establishes for the conditions of a proof. -/
structure Accepted (expected conditions : SpendingConditions) : Prop where
  numSigs : conditions.numSigs = expected.numSigs
  length : (conditions.pubkeys.getD []).length = expected.expectedKeys.length
  keys : ∀ key ∈ conditions.pubkeys.getD [], key ∈ expected.expectedKeys
  locktime : ∀ refundKeys, conditions.refundKeys = some refundKeys → ∃ early late,
    expected.locktime = some early ∧ conditions.locktime = some late ∧ early ≤ late

section Accepted

variable {env : Env} {expected conditions : SpendingConditions}

theorem verifyRefundKeys_eq_ok (h : verifyRefundKeys expected conditions = .ok ()) :
    ∀ refundKeys, conditions.refundKeys = some refundKeys → ∃ early late,
      expected.locktime = some early ∧ conditions.locktime = some late ∧ early ≤ late := by
  intro refundKeys hrefund
  simp only [verifyRefundKeys, hrefund, Outcome.bind_eq_ok, Outcome.ofOption_eq_ok] at h
  obtain ⟨late, hlate, h⟩ := h
  split at h
  next keys early hkeys hearly =>
    simp only [Outcome.bind_eq_ok, Outcome.ensure_eq_ok] at h
    obtain ⟨_, hle, -⟩ := h
    exact ⟨early, late, hearly, hlate, by simpa using hle⟩
  next => cases h

theorem verifyTokenProof_eq_ok {proof : Proof}
    (h : verifyTokenProof env expected proof = .ok ()) :
    ∃ conditions, SpendingConditions.tryFrom env proof.secret = .ok conditions ∧
      Accepted expected conditions := by
  simp only [verifyTokenProof, Outcome.bind_eq_ok, Outcome.mapErr_eq_ok, Outcome.ensure_eq_ok,
    decide_eq_true_eq, Bool.and_eq_true, List.all_eq_true] at h
  obtain ⟨conditions, hconditions, _, hsigs, _, ⟨hlength, hkeys⟩, hrefund⟩ := h
  exact ⟨conditions, hconditions, hsigs.symm, hlength, hkeys, verifyRefundKeys_eq_ok hrefund⟩

/-- Every proof of a token that passes was compared. -/
theorem verifyTokenP2pk_eq_ok {mintUrl : String} {token : Token} {proofs : List Proof}
    (hproofs : token.proofs = some proofs)
    (h : verifyTokenP2pk env mintUrl token expected = .ok ()) :
    ∀ proof ∈ proofs, ∃ conditions, SpendingConditions.tryFrom env proof.secret = .ok conditions ∧
      Accepted expected conditions := by
  simp only [verifyTokenP2pk, Outcome.bind_eq_ok, Outcome.ofOption_eq_ok, hproofs,
    Option.some.injEq] at h
  obtain ⟨_, -, _, -, _, -, _, rfl, hall⟩ := h
  rw [Outcome.forM_eq_ok] at hall
  intro proof hproof
  exact verifyTokenProof_eq_ok (hall proof hproof)

end Accepted

end Cdk
