import Cdk.Nuts.Htlc
import Cdk.Nuts.Signing

/-!
# Building a witness

The owners of a proof extend its witness call by call: a signature is appended
and a preimage replaces the one that is there. A signature that is appended
joins the list of an HTLC witness only when that witness has a list, and the
first preimage of a proof without a witness makes a witness without one.
-/

namespace Cdk

open Lib

variable {SecretKey : Type}

/-- `Witness::preimage`. -/
def Witness.preimage : Witness → Option String
  | .p2pk _ => none
  | .htlc w => some w.preimage

/-- A call that extends the witness of a proof. -/
inductive WitnessCall (SecretKey : Type) where
  | signP2pk (signer : Signer SecretKey)
  | addPreimage (preimage : String)

namespace WitnessCall

variable (env : Env) (curve : Curve SecretKey)

def apply (proof : Proof) : WitnessCall SecretKey → Proof
  | signP2pk signer => proof.signP2pk env curve signer
  | addPreimage preimage => proof.addPreimage preimage

def isSignature : WitnessCall SecretKey → Bool
  | signP2pk _ => true
  | addPreimage _ => false

/-- The text of the signature that a call makes on a secret. -/
def signature? (secret : String) : WitnessCall SecretKey → Option String
  | signP2pk signer => some (curve.sign env signer (utf8 secret)).toText
  | addPreimage _ => none

def preimage? : WitnessCall SecretKey → Option String
  | signP2pk _ => none
  | addPreimage preimage => some preimage

end WitnessCall

/-- The proof after a sequence of calls. -/
def Proof.build (env : Env) (curve : Curve SecretKey) (proof : Proof)
    (calls : List (WitnessCall SecretKey)) : Proof :=
  calls.foldl (fun proof call => call.apply env curve proof) proof

/-- The signatures in the witness of a proof. -/
def Proof.signatures (proof : Proof) : List String :=
  (proof.witness.bind Witness.signatures).getD []

/-- The signatures that calls make on a secret. -/
def producedSignatures (env : Env) (curve : Curve SecretKey) (secret : String)
    (calls : List (WitnessCall SecretKey)) : List String :=
  calls.filterMap fun call => call.signature? env curve secret

def lastPreimage (calls : List (WitnessCall SecretKey)) : Option String :=
  (calls.filterMap WitnessCall.preimage?).getLast?

/-- The witness that calls build holds all their signatures in order and their last preimage. -/
structure LosesNothing (env : Env) (curve : Curve SecretKey) (proof : Proof)
    (calls : List (WitnessCall SecretKey)) : Prop where
  signatures : (proof.build env curve calls).signatures =
    producedSignatures env curve proof.secret calls
  preimage : (proof.build env curve calls).witness.bind Witness.preimage = lastPreimage calls

/-- The first call adds a signature, or none does. -/
def StartsSigned (calls : List (WitnessCall SecretKey)) : Prop :=
  (∀ call ∈ calls, call.isSignature = false) ∨ calls.head?.any WitnessCall.isSignature = true

theorem lastPreimage_cons_or (rest : List (WitnessCall SecretKey)) (preimage : String)
    (before : Option String) :
    (lastPreimage (.addPreimage preimage :: rest)).or before =
      (lastPreimage rest).or (some preimage) := by
  simp only [lastPreimage, List.filterMap_cons, WitnessCall.preimage?, List.getLast?_cons]
  cases (rest.filterMap WitnessCall.preimage?).getLast? <;> rfl

section Build

variable {env : Env} {curve : Curve SecretKey} {proof : Proof} {w : Witness}
  {calls calls' : List (WitnessCall SecretKey)}

theorem Witness.addSignatures_signatures (texts : List String) (w : Witness) :
    (w.addSignatures texts).signatures = w.signatures.map (· ++ texts) := by
  cases w <;> rfl

theorem Witness.addSignatures_preimage (texts : List String) (w : Witness) :
    (w.addSignatures texts).preimage = w.preimage := by
  cases w <;> rfl

@[simp] theorem WitnessCall.apply_secret (call : WitnessCall SecretKey) (proof : Proof) :
    (call.apply env curve proof).secret = proof.secret := by
  cases call <;> rfl

theorem Proof.signP2pk_witness (signer : Signer SecretKey) (h : proof.witness = some w) :
    (proof.signP2pk env curve signer).witness =
      some (w.addSignatures [(curve.sign env signer (utf8 proof.secret)).toText]) := by
  rw [Proof.signP2pk, Proof.addSignature, h, Option.getD_some]

theorem Proof.signP2pk_witness_of_none (signer : Signer SecretKey) (h : proof.witness = none) :
    (proof.signP2pk env curve signer).witness =
      some (.p2pk ⟨[(curve.sign env signer (utf8 proof.secret)).toText]⟩) := by
  rw [Proof.signP2pk, Proof.addSignature, h]
  rfl

theorem Proof.addPreimage_witness (preimage : String) (proof : Proof) :
    (proof.addPreimage preimage).witness =
      some (.htlc ⟨preimage, proof.witness.bind Witness.signatures⟩) := rfl

/-- The signatures of a witness with a list are extended; a witness without one stays so. -/
theorem Proof.build_signatures (h : proof.witness = some w) :
    (proof.build env curve calls).witness.bind Witness.signatures =
      w.signatures.map (· ++ producedSignatures env curve proof.secret calls) := by
  induction calls generalizing proof w with
  | nil => simp [Proof.build, producedSignatures, h]
  | cons call rest ih =>
      cases call with
      | signP2pk signer =>
          have htail := ih (@Proof.signP2pk_witness _ env curve proof w signer h)
          rw [Witness.addSignatures_signatures, Option.map_map] at htail
          refine htail.trans ?_
          congr 1
          funext texts
          exact List.append_assoc texts [(curve.sign env signer (utf8 proof.secret)).toText] _
      | addPreimage preimage =>
          have htail := ih (Proof.addPreimage_witness preimage proof)
          rw [h] at htail
          exact htail

/-- The last preimage replaces the one that was there. -/
theorem Proof.build_preimage (h : proof.witness = some w) :
    (proof.build env curve calls).witness.bind Witness.preimage =
      (lastPreimage calls).or w.preimage := by
  induction calls generalizing proof w with
  | nil => simp [Proof.build, lastPreimage, h]
  | cons call rest ih =>
      cases call with
      | signP2pk signer =>
          have htail := ih (@Proof.signP2pk_witness _ env curve proof w signer h)
          rw [Witness.addSignatures_preimage] at htail
          exact htail
      | addPreimage preimage =>
          have htail := ih (Proof.addPreimage_witness preimage proof)
          rw [lastPreimage_cons_or rest preimage w.preimage]
          exact htail

theorem producedSignatures_eq_nil {secret : String} :
    producedSignatures env curve secret calls = [] ↔
      ∀ call ∈ calls, call.isSignature = false := by
  rw [producedSignatures, List.filterMap_eq_nil_iff]
  apply forall₂_congr
  intro call _
  cases call <;> simp [WitnessCall.signature?, WitnessCall.isSignature]

/-- A preimage on a proof without a witness makes a witness that takes no signatures. -/
theorem Proof.build_signatures_of_preimage (h : proof.witness = none) (preimage : String)
    (rest : List (WitnessCall SecretKey)) :
    (proof.build env curve (.addPreimage preimage :: rest)).signatures = [] := by
  have hstep := Proof.addPreimage_witness preimage proof
  rw [h] at hstep
  have htail := @Proof.build_signatures _ env curve _ _ rest hstep
  exact congrArg (Option.getD · []) htail

theorem Proof.build_signatures_of_starts (h : proof.witness = none) (hstart : StartsSigned calls) :
    (proof.build env curve calls).signatures =
      producedSignatures env curve proof.secret calls := by
  cases calls with
  | nil => simp [Proof.build, Proof.signatures, producedSignatures, h]
  | cons call rest =>
      cases call with
      | signP2pk signer =>
          have hstep := @Proof.signP2pk_witness_of_none _ env curve proof signer h
          have htail := @Proof.build_signatures _ env curve _ _ rest hstep
          exact congrArg (Option.getD · []) htail
      | addPreimage preimage =>
          have hnone : ∀ call ∈ WitnessCall.addPreimage preimage :: rest,
              call.isSignature = false := hstart.resolve_right Bool.false_ne_true
          rw [producedSignatures_eq_nil.mpr hnone, Proof.build_signatures_of_preimage h]

theorem Proof.build_signatures_of_not_starts (h : proof.witness = none)
    (hstart : ¬ StartsSigned calls) : (proof.build env curve calls).signatures = [] := by
  cases calls with
  | nil => exact absurd (.inl (by simp)) hstart
  | cons call rest =>
      cases call with
      | signP2pk signer => exact absurd (.inr rfl) hstart
      | addPreimage preimage => exact Proof.build_signatures_of_preimage h preimage rest

theorem Proof.build_preimage_of_none (h : proof.witness = none) :
    (proof.build env curve calls).witness.bind Witness.preimage = lastPreimage calls := by
  cases calls with
  | nil => simp [Proof.build, lastPreimage, h]
  | cons call rest =>
      cases call with
      | signP2pk signer =>
          have hstep := @Proof.signP2pk_witness_of_none _ env curve proof signer h
          have htail := @Proof.build_preimage _ env curve _ _ rest hstep
          exact htail.trans Option.or_none
      | addPreimage preimage =>
          have hstep := Proof.addPreimage_witness preimage proof
          have htail := @Proof.build_preimage _ env curve _ _ rest hstep
          rw [← Option.or_none (o := lastPreimage (.addPreimage preimage :: rest)),
            lastPreimage_cons_or]
          exact htail

theorem producedSignatures_perm (h : calls.Perm calls') (secret : String) :
    (producedSignatures env curve secret calls).Perm
      (producedSignatures env curve secret calls') :=
  h.filterMap _

end Build

/-- From no witness on: calls lose nothing exactly if the first of them adds a signature or none
does, and two orders of the same calls give the same signatures exactly if both or neither start
so. -/
theorem losesNothing_iff (env : Env) (curve : Curve SecretKey) (proof : Proof)
    (h : proof.witness = none) :
    (∀ calls, LosesNothing env curve proof calls ↔ StartsSigned calls) ∧
      ∀ calls calls', calls.Perm calls' →
        ((proof.build env curve calls).signatures.Perm (proof.build env curve calls').signatures ↔
          (StartsSigned calls ↔ StartsSigned calls')) := by
  -- without a signature that starts the calls, those that are made are lost
  have hlost : ∀ calls, ¬ StartsSigned calls →
      producedSignatures env curve proof.secret calls ≠ [] := fun calls hstart hnil =>
    hstart (.inl (producedSignatures_eq_nil.mp hnil))
  constructor
  · intro calls
    constructor
    · rintro ⟨hsignatures, -⟩
      by_contra hstart
      rw [Proof.build_signatures_of_not_starts h hstart] at hsignatures
      exact hlost calls hstart hsignatures.symm
    · intro hstart
      exact ⟨Proof.build_signatures_of_starts h hstart, Proof.build_preimage_of_none h⟩
  · intro calls calls' hperm
    have hproduced := @producedSignatures_perm _ env curve _ _ hperm proof.secret
    by_cases hstart : StartsSigned calls <;> by_cases hstart' : StartsSigned calls'
    · rw [Proof.build_signatures_of_starts h hstart, Proof.build_signatures_of_starts h hstart']
      exact iff_of_true hproduced (iff_of_true hstart hstart')
    · rw [Proof.build_signatures_of_starts h hstart,
        Proof.build_signatures_of_not_starts h hstart', List.perm_nil]
      refine iff_of_false ?_ fun hiff => hstart' (hiff.mp hstart)
      intro hnil
      rw [hnil] at hproduced
      exact hlost calls' hstart' (List.nil_perm.mp hproduced)
    · rw [Proof.build_signatures_of_not_starts h hstart,
        Proof.build_signatures_of_starts h hstart', List.nil_perm]
      refine iff_of_false ?_ fun hiff => hstart (hiff.mpr hstart')
      intro hnil
      rw [hnil] at hproduced
      exact hlost calls hstart (List.perm_nil.mp hproduced)
    · rw [Proof.build_signatures_of_not_starts h hstart,
        Proof.build_signatures_of_not_starts h hstart']
      exact iff_of_true .rfl (iff_of_false hstart hstart')

/-- A proof that is not signed yet. -/
def unsignedProof : Proof := ⟨Amount.one, .v1 0, "secret", ⟨false, 1⟩, none⟩

theorem losesNothing_iff_unsignedProof : unsignedProof.witness = none ∧
    LosesNothing refundEnv echoCurve unsignedProof
      [.signP2pk ⟨⟨false, 1⟩, 0⟩, .addPreimage "preimage"] :=
  ⟨rfl, ((losesNothing_iff refundEnv echoCurve unsignedProof rfl).1 _).mpr (.inr rfl)⟩

/-- A preimage that is added before the signature loses the signature. -/
theorem preimage_loses_signature : unsignedProof.witness = none ∧
    ¬ LosesNothing refundEnv echoCurve unsignedProof
      [.addPreimage "preimage", .signP2pk ⟨⟨false, 1⟩, 0⟩] ∧
    (unsignedProof.build refundEnv echoCurve
      [.addPreimage "preimage", .signP2pk ⟨⟨false, 1⟩, 0⟩]).signatures = [] := by
  refine ⟨rfl, ?_, rfl⟩
  rintro ⟨hsignatures, -⟩
  cases hsignatures

end Cdk
