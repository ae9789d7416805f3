import Cdk.Nuts.P2pk

/-!
# Hashed time lock contracts

The check of an HTLC proof and what it guarantees before the locktime.

The check tries the refund keys whenever a locktime is present, without
comparing it with the current time. A secret is therefore safe before its
locktime exactly when the refund path cannot succeed at all: a refund key is
usable unless every key with its `x` coordinate makes the count fail as a
duplicate.
-/

namespace Cdk

open Lib

/-- Errors of NUT-14. -/
inductive Nut14Error where
  | incorrectSecretKind
  | invalidHash
  | preimage
  | signaturesNotProvided
  | secp256k1
  | nut11 (error : Nut11Error)
  | serde
deriving DecidableEq, Repr

/-- The signatures of a witness, parsed. -/
def parseSignatures (texts : Option (List String)) : Outcome Nut14Error (List Signature) := do
  let texts ← Outcome.ofOption .signaturesNotProvided texts
  texts.mapM fun text => Outcome.ofOption .secp256k1 (Signature.fromStr text)

/-- The locktime block of the check; the result says that the check ends here with success. -/
def locktimeUnlocks (env : Env) (now : Nat) (msg : List UInt8) (conditions : Conditions)
    (witness : HtlcWitness) : Outcome Nut14Error Bool :=
  match conditions.locktime, conditions.refundKeys with
  | none, _ => .ok false
  | some locktime, none => .ok (locktime < now)
  | some _, some refundKeys => do
      let signatures ← parseSignatures witness.signatures
      let valid ← (validSignatures env msg refundKeys signatures).mapErr Nut14Error.nut11
      .ok (1 ≤ valid)

/-- The pubkeys block of the check. -/
def pubkeysSigned (env : Env) (msg : List UInt8) (conditions : Conditions)
    (witness : HtlcWitness) : Outcome Nut14Error Unit :=
  match conditions.pubkeys with
  | none => .ok ()
  | some pubkeys => do
      let signatures ← parseSignatures witness.signatures
      let valid ← (validSignatures env msg pubkeys signatures).mapErr Nut14Error.nut11
      .ensure (conditions.numSigs.getD 1 ≤ valid) .incorrectSecretKind

/-- The hash lock at the end of the check. -/
def preimageMatches (env : Env) (secret : Nut10Secret) (witness : HtlcWitness) :
    Outcome Nut14Error Unit := do
  Outcome.ensure (secret.kind = .htlc) .incorrectSecretKind
  let hashLock ← Outcome.ofOption .invalidHash (parseSha256 secret.secretData.data)
  .ensure (hashLock = env.sha256 (utf8 witness.preimage)) .preimage

/-- The witness of an HTLC proof. -/
def htlcWitness : Option Witness → Outcome Nut14Error HtlcWitness
  | some (.htlc witness) => .ok witness
  | _ => .err .incorrectSecretKind

/-- `Proof::verify_htlc`. -/
def verifyHtlc (env : Env) (now : Nat) (proof : Proof) : Outcome Nut14Error Unit := do
  let secret ← Outcome.ofOption .serde (env.parseSecret proof.secret)
  let conditions ← (Conditions.ofSecret env secret).mapErr Nut14Error.nut11
  let witness ← htlcWitness proof.witness
  let msg := utf8 proof.secret
  match conditions with
  | none => preimageMatches env secret witness
  | some conditions => do
      let unlocked ← locktimeUnlocks env now msg conditions witness
      if unlocked then .ok ()
      else do
        pubkeysSigned env msg conditions witness
        preimageMatches env secret witness

/-! ## Safety before the locktime -/

/-- The preimage of the witness hashes to the data of the secret. -/
def PreimageKnown (env : Env) (secret : Nut10Secret) (witness : HtlcWitness) : Prop :=
  parseSha256 secret.secretData.data = some (env.sha256 (utf8 witness.preimage))

/-- Enough distinct listed keys have a valid signature in the witness. -/
def ThresholdSigned (env : Env) (msg : List UInt8) (conditions : Conditions)
    (witness : HtlcWitness) : Prop :=
  ∀ pubkeys, conditions.pubkeys = some pubkeys →
    ∃ signers : List PublicKey, signers.Nodup ∧ conditions.numSigs.getD 1 ≤ signers.length ∧
      ∀ key ∈ signers, key ∈ pubkeys ∧
        ∃ texts, witness.signatures = some texts ∧
          ∃ text ∈ texts, ∃ sig, Signature.fromStr text = some sig ∧
            key.verify env msg sig = true

/-- The locktime is absent or has not passed. -/
def Locked (now : Nat) (conditions : Option Conditions) : Prop :=
  ∀ locktime, conditions.bind Conditions.locktime = some locktime → now ≤ locktime

/-- A proof that passes the check before the locktime shows the preimage and the signatures. -/
def TimelockSafe (env : Env) (now : Nat) (secret : Nut10Secret)
    (conditions : Option Conditions) (proof : Proof) : Prop :=
  verifyHtlc env now proof = .ok () → Locked now conditions →
    ∃ witness, proof.witness = some (.htlc witness) ∧ PreimageKnown env secret witness ∧
      ∀ c, conditions = some c → ThresholdSigned env (utf8 proof.secret) c witness

/-- The refund path is open although a locktime is set and has not passed: some refund key
shares its `x` coordinate with no key that is listed twice. -/
def RefundOpenEarly (now : Nat) (conditions : Option Conditions) : Prop :=
  ∃ c locktime keys, conditions = some c ∧ c.locktime = some locktime ∧ now ≤ locktime ∧
    c.refundKeys = some keys ∧
      ∃ key ∈ keys, (keys.filter fun other => other.x = key.x).Nodup

section Blocks

variable {env : Env} {now : Nat} {msg : List UInt8} {conditions : Conditions}
variable {witness : HtlcWitness} {secret : Nut10Secret}

theorem exists_text_of_parseSignatures {texts : Option (List String)}
    {signatures : List Signature} {sig : Signature}
    (h : parseSignatures texts = .ok signatures) (hsig : sig ∈ signatures) :
    ∃ list, texts = some list ∧ ∃ text ∈ list, Signature.fromStr text = some sig := by
  simp only [parseSignatures, Outcome.bind_eq_ok, Outcome.ofOption_eq_ok] at h
  obtain ⟨list, rfl, hlist⟩ := h
  obtain ⟨text, htext, hparse⟩ := Outcome.exists_of_mem_mapM hlist hsig
  exact ⟨list, rfl, text, htext, Outcome.ofOption_eq_ok.mp hparse⟩

theorem htlcWitness_eq_ok {w : Option Witness} :
    htlcWitness w = .ok witness ↔ w = some (.htlc witness) := by
  unfold htlcWitness
  split <;> simp_all

theorem preimageMatches_eq_ok {u : Unit} (h : preimageMatches env secret witness = .ok u) :
    PreimageKnown env secret witness := by
  simp only [preimageMatches, Outcome.bind_eq_ok, Outcome.ensure_eq_ok, Outcome.ofOption_eq_ok,
    decide_eq_true_eq] at h
  obtain ⟨_, -, hashLock, hparse, heq⟩ := h
  rw [PreimageKnown, hparse, heq]

theorem pubkeysSigned_eq_ok {u : Unit}
    (h : pubkeysSigned env msg conditions witness = .ok u) :
    ThresholdSigned env msg conditions witness := by
  intro pubkeys hp
  simp only [pubkeysSigned, hp, Outcome.bind_eq_ok, Outcome.mapErr_eq_ok, Outcome.ensure_eq_ok,
    decide_eq_true_eq, validSignatures_eq_ok] at h
  obtain ⟨signatures, hsigs, valid, ⟨hnd, rfl⟩, hle⟩ := h
  refine ⟨signedKeys env msg pubkeys signatures, hnd, hle, ?_⟩
  intro key hkey
  obtain ⟨hmem, sig, hsig, hv⟩ := mem_signedKeys.mp hkey
  obtain ⟨texts, htexts, text, htext, hparse⟩ := exists_text_of_parseSignatures hsigs hsig
  exact ⟨hmem, texts, htexts, text, htext, sig, hparse, hv⟩

/-- Before the locktime the locktime block succeeds only through a usable refund key. -/
theorem refund_of_locktimeUnlocks (h : locktimeUnlocks env now msg conditions witness = .ok true)
    (hlocked : Locked now (some conditions)) : RefundOpenEarly now (some conditions) := by
  unfold locktimeUnlocks at h
  cases hl : conditions.locktime with
  | none => simp [hl] at h
  | some locktime =>
      have hle : now ≤ locktime := hlocked locktime hl
      cases hr : conditions.refundKeys with
      | none =>
          simp only [hl, hr, Outcome.ok.injEq, decide_eq_true_eq] at h
          omega
      | some keys =>
          simp only [hl, hr, Outcome.bind_eq_ok, Outcome.mapErr_eq_ok, validSignatures_eq_ok,
            Outcome.ok.injEq, decide_eq_true_eq] at h
          obtain ⟨signatures, -, valid, ⟨hnd, rfl⟩, hpos⟩ := h
          obtain ⟨key, hkey⟩ := List.exists_mem_of_length_pos hpos
          obtain ⟨hmem, sig, hsig, hv⟩ := mem_signedKeys.mp hkey
          refine ⟨conditions, locktime, keys, rfl, hl, hle, hr, key, hmem, ?_⟩
          apply nodup_filter_of_signed hnd
          intro other _ hx
          -- verification sees the `x` coordinate only
          have hx' : other.x = key.x := by simpa using hx
          exact ⟨sig, hsig, by rw [PublicKey.verify, hx']; exact hv⟩

end Blocks

/-- A check that passes went through the locktime block or through the other two. -/
theorem verifyHtlc_eq_ok {env : Env} {now : Nat} {proof : Proof} {secret : Nut10Secret}
    {conditions : Option Conditions} (hs : env.parseSecret proof.secret = some secret)
    (hc : Conditions.ofSecret env secret = .ok conditions) :
    verifyHtlc env now proof = .ok () ↔
      ∃ witness, proof.witness = some (.htlc witness) ∧
        ((∃ c, conditions = some c ∧
            locktimeUnlocks env now (utf8 proof.secret) c witness = .ok true) ∨
          (preimageMatches env secret witness = .ok () ∧
            ∀ c, conditions = some c →
              locktimeUnlocks env now (utf8 proof.secret) c witness = .ok false ∧
                pubkeysSigned env (utf8 proof.secret) c witness = .ok ())) := by
  have hs' : (Outcome.ofOption .serde (env.parseSecret proof.secret) : Outcome Nut14Error _) =
      .ok secret := Outcome.ofOption_eq_ok.mpr hs
  have hc' : (Conditions.ofSecret env secret).mapErr Nut14Error.nut11 = .ok conditions :=
    Outcome.mapErr_eq_ok.mpr hc
  simp only [verifyHtlc, hs', hc', Outcome.bind_ok]
  rw [Outcome.bind_eq_ok]
  simp only [htlcWitness_eq_ok]
  constructor
  · rintro ⟨witness, hw, h⟩
    refine ⟨witness, hw, ?_⟩
    cases conditions with
    | none => exact .inr ⟨h, by simp⟩
    | some c =>
        simp only [Outcome.bind_eq_ok] at h
        obtain ⟨unlocked, hl, h⟩ := h
        cases unlocked with
        | true => exact .inl ⟨c, rfl, hl⟩
        | false =>
            simp only [Bool.false_eq_true, if_false, Outcome.bind_eq_ok] at h
            obtain ⟨_, hsigned, hpre⟩ := h
            refine .inr ⟨hpre, ?_⟩
            rintro _ ⟨⟩
            exact ⟨hl, hsigned⟩
  · rintro ⟨witness, hw, h⟩
    refine ⟨witness, hw, ?_⟩
    rcases h with ⟨c, rfl, hl⟩ | ⟨hpre, hall⟩
    · simp [hl]
    · cases conditions with
      | none => exact hpre
      | some c =>
          obtain ⟨hl, hsigned⟩ := hall c rfl
          simp [hl, hsigned, hpre]

/-- A signature text that parses, whatever the oracle says about it. -/
def zeroSignature : String := String.ofList (List.replicate 128 '0')

theorem fromStr_zeroSignature : Signature.fromStr zeroSignature = some 0 := by decide +kernel

/-- A usable refund key unlocks with its signature alone. -/
theorem locktimeUnlocks_of_refund {env : Env} {now : Nat} {msg : List UInt8} {c : Conditions}
    {locktime : Nat} {keys : List PublicKey} {key : PublicKey} (hl : c.locktime = some locktime)
    (hr : c.refundKeys = some keys) (hk : key ∈ keys)
    (hnd : (keys.filter fun other => other.x = key.x).Nodup)
    (hsig : ∀ x digest sig, env.verifySchnorr x digest sig = decide (x = key.x)) :
    locktimeUnlocks env now msg c ⟨"", some [zeroSignature]⟩ = .ok true := by
  have hfilter : signedKeys env msg keys [0] = keys.filter fun other => other.x = key.x := by
    rw [signedKeys_singleton]
    exact List.filter_congr fun other _ => by simp [PublicKey.verify, hsig]
  have hvalid : validSignatures env msg keys [0] =
      .ok (keys.filter fun other => other.x = key.x).length :=
    validSignatures_eq_ok.mpr ⟨hfilter ▸ hnd, by rw [hfilter]⟩
  have hpos : 1 ≤ (keys.filter fun other => other.x = key.x).length :=
    List.length_pos_of_mem (List.mem_filter.mpr ⟨hk, by simp⟩)
  have hparse : parseSignatures (some [zeroSignature]) = .ok [0] := by
    simp [parseSignatures, Outcome.ofOption, fromStr_zeroSignature]
  simp only [locktimeUnlocks, hl, hr, hparse, Outcome.bind_ok, hvalid, Outcome.mapErr, hpos,
    decide_true]

/-- For every secret and every time: all witnesses are safe before the locktime, for all
signature oracles and hash functions, exactly when the refund path is not open early. -/
theorem verifyHtlc_timelockSafe_iff (env : Env) (now : Nat) (text : String)
    (secret : Nut10Secret) (conditions : Option Conditions)
    (hs : env.parseSecret text = some secret)
    (hc : Conditions.ofSecret env secret = .ok conditions) :
    (∀ schnorr sha256 proof, proof.secret = text →
        TimelockSafe { env with verifySchnorr := schnorr, sha256 := sha256 } now secret
          conditions proof) ↔
      ¬ RefundOpenEarly now conditions := by
  constructor
  · rintro hsafe ⟨c, locktime, keys, rfl, hl, hle, hr, key, hkey, hnd⟩
    -- the oracle accepts any signature of the usable key, and no preimage is known
    let sha : List UInt8 → BitVec 256 := fun _ =>
      if parseSha256 secret.secretData.data = some 0 then 1 else 0
    let env' : Env :=
      { env with verifySchnorr := fun x _ _ => decide (x = key.x), sha256 := sha }
    let proof : Proof := ⟨Amount.one, .v1 0, text, key, some (.htlc ⟨"", some [zeroSignature]⟩)⟩
    have hs' : env'.parseSecret proof.secret = some secret := hs
    have hc' : Conditions.ofSecret env' secret = .ok (some c) := hc
    have hok : verifyHtlc env' now proof = .ok () := by
      refine (verifyHtlc_eq_ok hs' hc').mpr ⟨_, rfl, .inl ⟨c, rfl, ?_⟩⟩
      exact locktimeUnlocks_of_refund hl hr hkey hnd fun _ _ _ => rfl
    have hlocked : Locked now (some c) := by
      intro l hl'
      rw [Option.bind_some, hl] at hl'
      cases hl'
      exact hle
    obtain ⟨w, -, hpre, -⟩ := hsafe (fun x _ _ => decide (x = key.x)) sha proof rfl hok hlocked
    have hpre' : parseSha256 secret.secretData.data =
        some (if parseSha256 secret.secretData.data = some 0 then 1 else 0) := hpre
    by_cases h0 : parseSha256 secret.secretData.data = some 0
    · rw [if_pos h0, h0] at hpre'
      exact absurd hpre' (by decide)
    · rw [if_neg h0] at hpre'
      exact h0 hpre'
  · intro hclosed schnorr sha256 proof hp hok hlocked
    subst hp
    let env' : Env := { env with verifySchnorr := schnorr, sha256 := sha256 }
    have hs' : env'.parseSecret proof.secret = some secret := hs
    have hc' : Conditions.ofSecret env' secret = .ok conditions := hc
    obtain ⟨witness, hw, h⟩ := (verifyHtlc_eq_ok hs' hc').mp hok
    refine ⟨witness, hw, ?_⟩
    rcases h with ⟨c, rfl, hl⟩ | ⟨hpre, hall⟩
    · exact absurd (refund_of_locktimeUnlocks hl hlocked) hclosed
    · refine ⟨preimageMatches_eq_ok hpre, ?_⟩
      intro c hc'
      exact pubkeysSigned_eq_ok (hall c hc').2

/-! ## A refund before the locktime -/

/-- The HTLC secret of the example: locked until `2000000000` with one refund key. -/
def refundSecret : Nut10Secret :=
  ⟨.htlc, ⟨"7a9128b3f9612549f9278958337a5d7f",
    "5c23fc3aec9d985bd5fc88ca8bceaccc52cf892715dd94b42b84f1b43350751e",
    some [["locktime", "2000000000"],
      ["refund", "026562efcfadc8e86d44da6a8adf80633d974302e62c850774db1fb36ff4cc7198"]]⟩⟩

def refundSecretText : String := "[\"HTLC\",\x7b\"nonce\":\"7a9128b3f9612549f9278958337a5d7f\"," ++
  "\"data\":\"5c23fc3aec9d985bd5fc88ca8bceaccc52cf892715dd94b42b84f1b43350751e\"," ++
  "\"tags\":[[\"locktime\",\"2000000000\"],[\"refund\"," ++
  "\"026562efcfadc8e86d44da6a8adf80633d974302e62c850774db1fb36ff4cc7198\"]]\x7d]"

def refundKey : PublicKey :=
  ⟨false, 0x6562efcfadc8e86d44da6a8adf80633d974302e62c850774db1fb36ff4cc7198⟩

def refundConditions : Conditions where
  locktime := some 2000000000
  pubkeys := none
  refundKeys := some [refundKey]
  numSigs := none
  sigFlag := .sigInputs
  numSigsRefund := none

/-- Only signatures of the refund key are valid, and no text hashes to the data of the secret. -/
def refundEnv : Env where
  parseSecret text := if text = refundSecretText then some refundSecret else none
  parsePublicKey text :=
    if text = "026562efcfadc8e86d44da6a8adf80633d974302e62c850774db1fb36ff4cc7198" then
      some refundKey
    else none
  verifySchnorr x _ _ := x = refundKey.x
  sha256 _ := 0
  hashToCurve _ := none
  signMessage _ _ _ := none
  verifyMessage _ _ _ _ := false

/-- A proof of the example secret signed by the refund key, with an empty preimage. -/
def refundProof : Proof :=
  ⟨Amount.one, .v1 0, refundSecretText, refundKey, some (.htlc ⟨"", some [zeroSignature]⟩)⟩

theorem refundEnv_parseSecret :
    refundEnv.parseSecret refundSecretText = some refundSecret := by
  simp only [refundEnv, if_true]

theorem refundSecret_conditions :
    Conditions.ofSecret refundEnv refundSecret = .ok (some refundConditions) := by
  decide +kernel

/-- Long before the locktime the refund signature alone unlocks the example. -/
theorem verifyHtlc_refund_before_locktime :
    refundEnv.parseSecret refundProof.secret = some refundSecret ∧
      Conditions.ofSecret refundEnv refundSecret = .ok (some refundConditions) ∧
      verifyHtlc refundEnv 1700000000 refundProof = .ok () ∧
      ¬ TimelockSafe refundEnv 1700000000 refundSecret (some refundConditions) refundProof := by
  have hs : refundEnv.parseSecret refundProof.secret = some refundSecret :=
    refundEnv_parseSecret
  have hok : verifyHtlc refundEnv 1700000000 refundProof = .ok () := by
    refine (verifyHtlc_eq_ok hs refundSecret_conditions).mpr ⟨_, rfl, .inl ⟨_, rfl, ?_⟩⟩
    exact locktimeUnlocks_of_refund rfl rfl (List.mem_singleton_self refundKey)
      ((List.nodup_singleton refundKey).filter _) fun _ _ _ => rfl
  refine ⟨hs, refundSecret_conditions, hok, ?_⟩
  intro hsafe
  have hlocked : Locked 1700000000 (some refundConditions) := by
    intro locktime hl
    cases hl
    decide
  obtain ⟨witness, -, hpre, -⟩ := hsafe hok hlocked
  have hdata : parseSha256 refundSecret.secretData.data ≠ some 0 := by decide +kernel
  exact hdata hpre

theorem verifyHtlc_timelockSafe_iff_at_refundSecret :
    (∀ schnorr sha256 proof, proof.secret = refundSecretText →
        TimelockSafe { refundEnv with verifySchnorr := schnorr, sha256 := sha256 } 1700000000
          refundSecret (some refundConditions) proof) ↔
      ¬ RefundOpenEarly 1700000000 (some refundConditions) :=
  verifyHtlc_timelockSafe_iff refundEnv 1700000000 refundSecretText refundSecret
    (some refundConditions) refundEnv_parseSecret refundSecret_conditions

end Cdk
