import Cdk.Nuts.Conditions
import Mathlib.Data.List.Dedup

/-!
# Signatures of spending conditions

Counting the listed keys with a valid signature, the P2PK check of one proof
and the SIG_ALL check of a whole request.

The count inserts a key into a set for every valid pair of a key and a
signature and fails on a second insertion. Its result is therefore determined
by the list of keys, one entry for each valid pair: it fails unless that list
is free of duplicates, and otherwise is its length.
-/

namespace Cdk

open Lib

/-- Insert a key into the verified keys; a second insertion is an error. -/
def insertKey (verified : List PublicKey) (key : PublicKey) :
    Outcome Nut11Error (List PublicKey) :=
  if key ∈ verified then .err .duplicateSignature else .ok (verified ++ [key])

/-- Count one key against one signature. -/
def countSignature (env : Env) (msg : List UInt8) (verified : List PublicKey) (key : PublicKey)
    (sig : Signature) : Outcome Nut11Error (List PublicKey) :=
  if key.verify env msg sig then insertKey verified key else .ok verified

/-- `valid_signatures`: the number of listed keys with a valid signature. -/
def validSignatures (env : Env) (msg : List UInt8) (pubkeys : List PublicKey)
    (signatures : List Signature) : Outcome Nut11Error Nat := do
  let verified ← pubkeys.foldlM (fun verified key =>
    signatures.foldlM (fun verified sig => countSignature env msg verified key sig) verified) []
  .ok verified.length

/-- The listed keys, one entry for each of their valid signatures. -/
def signedKeys (env : Env) (msg : List UInt8) (pubkeys : List PublicKey)
    (signatures : List Signature) : List PublicKey :=
  pubkeys.flatMap fun key => (signatures.filter (key.verify env msg)).map fun _ => key

section Counting

variable {env : Env} {msg : List UInt8}

theorem countSignature_eq_ok {verified result : List PublicKey} {key : PublicKey}
    {sig : Signature} :
    countSignature env msg verified key sig = .ok result ↔
      (key.verify env msg sig = true ∧ key ∉ verified ∧ result = verified ++ [key]) ∨
        (key.verify env msg sig = false ∧ result = verified) := by
  unfold countSignature insertKey
  by_cases hv : key.verify env msg sig = true
  · by_cases hm : key ∈ verified
    · simp [hv, hm]
    · simp [hv, hm, eq_comm]
  · simp [hv, eq_comm]

private theorem foldlM_signatures {key : PublicKey} {signatures : List Signature}
    {verified result : List PublicKey} (hnd : verified.Nodup) :
    signatures.foldlM (fun verified sig => countSignature env msg verified key sig) verified =
        .ok result ↔
      (verified ++ (signatures.filter (key.verify env msg)).map fun _ => key).Nodup ∧
        result = verified ++ (signatures.filter (key.verify env msg)).map fun _ => key := by
  induction signatures generalizing verified with
  | nil => simp [hnd, eq_comm]
  | cons sig rest ih =>
      rw [List.foldlM_cons, Outcome.bind_eq_ok]
      by_cases hv : key.verify env msg sig = true
      · by_cases hm : key ∈ verified
        · constructor
          · rintro ⟨mid, hmid, -⟩
            simp [countSignature_eq_ok, hv, hm] at hmid
          · rintro ⟨hdup, -⟩
            refine absurd rfl ((List.nodup_append.mp hdup).2.2 key hm key ?_)
            exact List.mem_map.mpr ⟨sig, List.mem_filter.mpr ⟨by simp, hv⟩, rfl⟩
        · have hnd' : (verified ++ [key]).Nodup := List.nodup_append.mpr
            ⟨hnd, List.nodup_singleton key, by
              intro a ha b hb hab
              rw [List.mem_singleton] at hb
              exact hm (by rw [← hb, ← hab]; exact ha)⟩
          simp [countSignature_eq_ok, hv, hm, ih hnd']
      · simp [countSignature_eq_ok, hv, ih hnd]

private theorem foldlM_keys {pubkeys : List PublicKey} {signatures : List Signature}
    {verified result : List PublicKey} (hnd : verified.Nodup) :
    pubkeys.foldlM (fun verified key =>
        signatures.foldlM (fun verified sig => countSignature env msg verified key sig) verified)
          verified = .ok result ↔
      (verified ++ signedKeys env msg pubkeys signatures).Nodup ∧
        result = verified ++ signedKeys env msg pubkeys signatures := by
  induction pubkeys generalizing verified with
  | nil => simp [signedKeys, hnd, eq_comm]
  | cons key rest ih =>
      rw [List.foldlM_cons, Outcome.bind_eq_ok]
      simp only [foldlM_signatures hnd, signedKeys, List.flatMap_cons]
      constructor
      · rintro ⟨mid, ⟨hmid, rfl⟩, hrest⟩
        simpa [signedKeys, List.append_assoc] using (ih hmid).mp hrest
      · rintro ⟨hall, rfl⟩
        rw [← List.append_assoc] at hall
        have hmid := (List.nodup_append.mp hall).1
        refine ⟨_, ⟨hmid, rfl⟩, (ih hmid).mpr ⟨hall, ?_⟩⟩
        simp [signedKeys, List.append_assoc]

/-- The count succeeds exactly when no listed key has two valid pairs. -/
theorem validSignatures_eq_ok {pubkeys : List PublicKey} {signatures : List Signature} {n : Nat} :
    validSignatures env msg pubkeys signatures = .ok n ↔
      (signedKeys env msg pubkeys signatures).Nodup ∧
        n = (signedKeys env msg pubkeys signatures).length := by
  unfold validSignatures
  rw [Outcome.bind_eq_ok]
  simp only [foldlM_keys List.nodup_nil, List.nil_append]
  constructor
  · rintro ⟨verified, ⟨hnd, rfl⟩, hlen⟩
    cases hlen
    exact ⟨hnd, rfl⟩
  · rintro ⟨hnd, rfl⟩
    exact ⟨_, ⟨hnd, rfl⟩, rfl⟩

theorem mem_signedKeys {pubkeys : List PublicKey} {signatures : List Signature}
    {key : PublicKey} :
    key ∈ signedKeys env msg pubkeys signatures ↔
      key ∈ pubkeys ∧ ∃ sig ∈ signatures, key.verify env msg sig = true := by
  simp only [signedKeys, List.mem_flatMap, List.mem_map, List.mem_filter]
  constructor
  · rintro ⟨k, hk, sig, ⟨hsig, hv⟩, rfl⟩
    exact ⟨hk, sig, hsig, hv⟩
  · rintro ⟨hk, sig, hsig, hv⟩
    exact ⟨key, hk, sig, ⟨hsig, hv⟩, rfl⟩

/-- With a single signature the entries are the keys it is valid for. -/
theorem signedKeys_singleton {pubkeys : List PublicKey} {sig : Signature} :
    signedKeys env msg pubkeys [sig] = pubkeys.filter fun key => key.verify env msg sig := by
  induction pubkeys with
  | nil => rfl
  | cons key rest ih =>
      have hcons : signedKeys env msg (key :: rest) [sig] =
          ([sig].filter (key.verify env msg)).map (fun _ => key) ++
            signedKeys env msg rest [sig] := rfl
      rw [hcons, ih]
      by_cases hv : key.verify env msg sig = true <;> simp [hv]

/-- A count without duplicates leaves no duplicate among the keys with a valid signature. -/
theorem nodup_filter_of_signed {pubkeys : List PublicKey} {signatures : List Signature}
    {p : PublicKey → Bool} (hnd : (signedKeys env msg pubkeys signatures).Nodup)
    (hp : ∀ key ∈ pubkeys, p key = true → ∃ sig ∈ signatures, key.verify env msg sig = true) :
    (pubkeys.filter p).Nodup := by
  induction pubkeys with
  | nil => simp
  | cons key rest ih =>
      have hcons : signedKeys env msg (key :: rest) signatures =
          (signatures.filter (key.verify env msg)).map (fun _ => key) ++
            signedKeys env msg rest signatures := rfl
      rw [hcons, List.nodup_append] at hnd
      have hrest := ih hnd.2.1 fun k hk => hp k (by simp [hk])
      by_cases hpk : p key = true
      · rw [List.filter_cons_of_pos hpk, List.nodup_cons]
        refine ⟨?_, hrest⟩
        intro hmem
        obtain ⟨hin, -⟩ := List.mem_filter.mp hmem
        obtain ⟨sig, hsig, hv⟩ := hp key (by simp) hpk
        refine hnd.2.2 key ?_ key (mem_signedKeys.mpr ⟨hin, sig, hsig, hv⟩) rfl
        exact List.mem_map.mpr ⟨sig, List.mem_filter.mpr ⟨hsig, hv⟩, rfl⟩
      · rw [List.filter_cons_of_neg (by simpa using hpk)]
        exact hrest

end Counting

/-! ## The P2PK check of a proof -/

/-- Try one signature against the refund keys; the flag says that enough keys have signed. -/
def refundKeysLoop (env : Env) (msg : List UInt8) (needed : Nat) (sig : Signature) :
    List PublicKey → List PublicKey → List PublicKey × Bool
  | [], valid => (valid, false)
  | key :: rest, valid =>
      if key.verify env msg sig then
        let valid := valid.insert key
        if needed ≤ valid.length then (valid, true)
        else refundKeysLoop env msg needed sig rest valid
      else refundKeysLoop env msg needed sig rest valid

/-- Try the witness signatures against the refund keys until enough keys have signed. -/
def refundLoop (env : Env) (msg : List UInt8) (needed : Nat) (refundKeys : List PublicKey) :
    List String → List PublicKey → Outcome Nut11Error Unit
  | [], _ => .err .spendConditionsNotMet
  | text :: rest, valid =>
      match Signature.fromStr text with
      | none => .err .invalidSignature
      | some sig =>
          match refundKeysLoop env msg needed sig refundKeys valid with
          | (_, true) => .ok ()
          | (valid, false) => refundLoop env msg needed refundKeys rest valid

/-- The multisignature check that holds before the locktime. -/
def verifyThreshold (env : Env) (msg : List UInt8) (pubkeys : List PublicKey)
    (signatures : List String) (needed : Nat) : Outcome Nut11Error Unit := do
  let verified ← signatures.foldlM (fun verified text =>
    pubkeys.foldlM (fun verified key => do
      let sig ← Outcome.ofOption .secp256k1 (Signature.fromStr text)
      countSignature env msg verified key sig) verified) []
  .ensure (needed ≤ verified.length) .spendConditionsNotMet

/-- `Proof::verify_p2pk`. -/
def verifyP2pk (env : Env) (now : Nat) (proof : Proof) : Outcome Nut11Error Unit := do
  let secret ← Outcome.ofOption .serdeJsonError (env.parseSecret proof.secret)
  let conditions ← Conditions.tryFrom env (secret.secretData.tags.getD [])
  let msg := utf8 proof.secret
  let signatures ←
    Outcome.ofOption .signaturesNotProvided (proof.witness.bind Witness.signatures)
  match conditions.locktime.filter (fun locktime => locktime ≤ now), conditions.refundKeys with
  | some _, some refundKeys =>
      refundLoop env msg (conditions.numSigsRefund.getD 1) refundKeys signatures []
  | some _, none => .ok ()
  | none, _ => do
      let listed := conditions.pubkeys.getD []
      let pubkeys ← match secret.kind with
        | .p2pk => do
            let key ← Outcome.ofOption .nut01 (env.parsePublicKey secret.secretData.data)
            .ok (listed ++ [key])
        | .htlc => .ok listed
      verifyThreshold env msg pubkeys signatures (conditions.numSigs.getD 1)

/-! ## SIG_ALL -/

/-- The signature flag of a set of proofs with the keys and the number of signatures it names. -/
structure EnforceSigFlag where
  sigFlag : SigFlag
  pubkeys : List PublicKey
  sigsRequired : Nat
deriving DecidableEq, Repr

/-- One round of `enforce_sig_flag`. -/
def enforceStep (env : Env) (acc : EnforceSigFlag) (proof : Proof) :
    Outcome Nut11Error EnforceSigFlag :=
  match env.parseSecret proof.secret with
  | none => .ok acc
  | some secret => do
      let own := match secret.kind with
        | .p2pk => (env.parsePublicKey secret.secretData.data).toList
        | .htlc => []
      let pubkeys := acc.pubkeys ∪ own
      let conditions ← Conditions.ofSecret env secret
      match conditions with
      | none => .ok ⟨acc.sigFlag, pubkeys, acc.sigsRequired⟩
      | some c =>
          let sigFlag := if c.sigFlag = .sigAll then .sigAll else acc.sigFlag
          .ok ⟨sigFlag, pubkeys ∪ c.pubkeys.getD [], max acc.sigsRequired (c.numSigs.getD 0)⟩

/-- `enforce_sig_flag`. -/
def enforceSigFlag (env : Env) (proofs : List Proof) : Outcome Nut11Error EnforceSigFlag :=
  proofs.foldlM (enforceStep env) ⟨.sigInputs, [], 1⟩

inductive SpendingConditions where
  | p2pk (data : PublicKey) (conditions : Option Conditions)
  | htlc (data : BitVec 256) (conditions : Option Conditions)
deriving DecidableEq, Repr

namespace SpendingConditions

def tryFrom (env : Env) (secret : String) : Outcome Nut11Error SpendingConditions := do
  let secret ← Outcome.ofOption .secret (env.parseSecret secret)
  match secret.kind with
  | .p2pk => do
      let data ← Outcome.ofOption .nut01 (env.parsePublicKey secret.secretData.data)
      let conditions ← Conditions.ofSecret env secret
      .ok (.p2pk data conditions)
  | .htlc => do
      let data ← Outcome.ofOption .invalidHash (parseSha256 secret.secretData.data)
      let conditions ← Conditions.ofSecret env secret
      .ok (.htlc data conditions)

/-- The keys that may sign, without duplicates. -/
def pubkeys : SpendingConditions → Option (List PublicKey)
  | p2pk data conditions => some (data :: (conditions.bind Conditions.pubkeys).getD []).dedup
  | htlc _ conditions => conditions.bind Conditions.pubkeys

end SpendingConditions

/-- `get_sig_all_required_sigs`. -/
def getSigAllRequiredSigs (env : Env) (inputs : List Proof) :
    Outcome Nut11Error (Nat × SpendingConditions) := do
  let first ← Outcome.ofOption .spendConditionsNotMet inputs.head?
  let spending ← SpendingConditions.tryFrom env first.secret
  match spending with
  | .p2pk _ conditions => do
      let c ← Outcome.ofOption .incorrectSecretKind conditions
      if c.sigFlag = .sigAll then .ok (c.numSigs.getD 1, spending)
      else .err .incorrectSecretKind
  | .htlc _ _ => .err .incorrectSecretKind

/-- `verify_matching_conditions`. -/
def verifyMatchingConditions (env : Env) (inputs : List Proof) : Outcome Nut11Error Unit := do
  let first ← Outcome.ofOption .spendConditionsNotMet inputs.head?
  let firstSecret ← Outcome.ofOption .secret (env.parseSecret first.secret)
  (inputs.drop 1).forM fun proof => do
    let secret ← Outcome.ofOption .serdeJsonError (env.parseSecret proof.secret)
    Outcome.ensure (secret.secretData.data = firstSecret.secretData.data) .spendConditionsNotMet
    Outcome.ensure (secret.secretData.tags = firstSecret.secretData.tags) .spendConditionsNotMet

/-- `get_valid_witness_signatures`. -/
def getValidWitnessSignatures (inputs : List Proof) : Outcome Nut11Error (List Signature) := do
  let first ← Outcome.ofOption .spendConditionsNotMet inputs.head?
  let texts ← Outcome.ofOption .signaturesNotProvided (first.witness.bind Witness.signatures)
  texts.mapM fun text => Outcome.ofOption .secp256k1 (Signature.fromStr text)

/-- The check that swap and melt requests share; they differ in the message that is signed. -/
def verifySigAll (env : Env) (inputs : List Proof) (msg : String) : Outcome Nut11Error Unit := do
  let (required, spending) ← getSigAllRequiredSigs env inputs
  verifyMatchingConditions env inputs
  let signatures ← getValidWitnessSignatures inputs
  let pubkeys ← Outcome.ofOption .p2pkPubkeyRequired spending.pubkeys
  let valid ← validSignatures env (utf8 msg) pubkeys signatures
  .ensure (required ≤ valid) .spendConditionsNotMet

def SwapRequest.sigAllMsgToSign (request : SwapRequest) : String :=
  String.join (request.inputs.map Proof.secret) ++
    String.join (request.outputs.map fun output => output.blindedSecret.toHex)

def MeltRequest.sigAllMsgToSign (request : MeltRequest) : String :=
  String.join (request.inputs.map Proof.secret) ++
    String.join ((request.outputs.getD []).map fun output => output.blindedSecret.toHex) ++
      request.quote.toText

def SwapRequest.verifySigAll (env : Env) (request : SwapRequest) : Outcome Nut11Error Unit :=
  Cdk.verifySigAll env request.inputs request.sigAllMsgToSign

def MeltRequest.verifySigAll (env : Env) (request : MeltRequest) : Outcome Nut11Error Unit :=
  Cdk.verifySigAll env request.inputs request.sigAllMsgToSign

end Cdk
