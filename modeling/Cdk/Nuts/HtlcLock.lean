import Cdk.Nuts.Htlc
import Cdk.Nuts.Signing
import Cdk.Nuts.SpendingConditions

/-!
# Locking and unlocking with a preimage

The sender locks to the hash of the bytes that the preimage text encodes, the
receiver puts the text into the witness, and the check hashes the text itself.
Adding the preimage turns the witness into an HTLC witness, and signatures
only join such a witness when it has a list of signatures already.

What the receiver builds therefore unlocks in two cases only: no key is asked
for and the two hashes agree, or the proof carried a list of signatures before.
-/

namespace Cdk

open Lib

variable {SecretKey : Type}

/-- The refund keys that the check of an HTLC reads; without a locktime it reads none. -/
def Conditions.checkedRefundKeys (c : Conditions) : Option (List PublicKey) :=
  c.locktime.bind fun _ => c.refundKeys

/-- The locktime has passed and there are no refund keys. -/
def OpenAt (now : Nat) (c : Conditions) : Prop :=
  ∃ locktime, c.locktime = some locktime ∧ c.refundKeys = none ∧ locktime < now

/-- An HTLC secret with its hash and its conditions. -/
def IsHtlc (env : Env) (text : String) (hash : BitVec 256) (c : Conditions) : Prop :=
  ∃ secret conditions, env.parseSecret text = some secret ∧ secret.kind = .htlc ∧
    parseSha256 secret.secretData.data = some hash ∧
    Conditions.ofSecret env secret = .ok conditions ∧ c = effective conditions

/-- The text of the preimage and the bytes it encodes have one hash. -/
def HashAgrees (env : Env) (preimage : String) : Prop :=
  ∃ bytes, hexDecode preimage = .ok bytes ∧ env.sha256 bytes = env.sha256 (utf8 preimage)

/-- At least as many distinct listed keys as asked for; nobody without listed keys. -/
def EnoughSigners (curve : Curve SecretKey) (conditions : Option Conditions)
    (signers : List (Signer SecretKey)) : Prop :=
  match conditions.bind Conditions.pubkeys with
  | none => signers = []
  | some keys =>
      (signers.map fun signer => curve.publicKey signer.key).Nodup ∧
        (∀ signer ∈ signers, curve.publicKey signer.key ∈ keys) ∧
        (conditions.bind Conditions.numSigs).getD 1 ≤ signers.length

/-- The signatures of the proof and the new signers meet the keys that the check reads, none of
them twice, and either a refund key is met or the hashes agree. -/
def SignaturesUnlock (env : Env) (preimage : String) (c : Conditions) (proof : Proof)
    (xs : List (BitVec 256)) : Prop :=
  ∃ texts sigs, proof.witness.bind Witness.signatures = some texts ∧ Parsed texts sigs ∧
    (∀ keys, c.checkedRefundKeys = some keys →
      (metKeys env (utf8 proof.secret) keys sigs xs).Nodup) ∧
    ((∃ keys, c.checkedRefundKeys = some keys ∧
        metKeys env (utf8 proof.secret) keys sigs xs ≠ []) ∨
      (HashAgrees env preimage ∧ ∀ keys, c.pubkeys = some keys →
        (metKeys env (utf8 proof.secret) keys sigs xs).Nodup))

/-- The condition under which locking and unlocking agree. -/
def HtlcUnlocks (env : Env) (preimage : String) (conditions : Option Conditions) (proof : Proof)
    (xs : List (BitVec 256)) : Prop :=
  (HashAgrees env preimage ∧
      ∀ c, conditions = some c → c.checkedRefundKeys = none ∧ c.pubkeys = none) ∨
    ∃ c, conditions = some c ∧ SignaturesUnlock env preimage c proof xs

section Blocks

variable {env : Env} {now : Nat} {msg : List UInt8} {c : Conditions} {preimage : String}

theorem parseSignatures_none : parseSignatures none = .err .signaturesNotProvided := rfl

theorem parseSignatures_some {texts : List String} {sigs : List Signature} :
    parseSignatures (some texts) = .ok sigs ↔ Parsed texts sigs := by
  rw [parseSignatures, Outcome.ofOption_some, Outcome.bind_ok]
  exact Parsed.mapM

/-- The texts of signatures in an HTLC witness are read back. -/
theorem exists_parseSignatures_iff {sigs : List Signature} {P : List Signature → Prop} :
    (∃ all, parseSignatures (some (sigs.map Signature.toText)) = .ok all ∧ P all) ↔ P sigs := by
  constructor
  · rintro ⟨all, hall, hP⟩
    rwa [(parseSignatures_some.mp hall).unique (Parsed.toText sigs)] at hP
  · intro hP
    exact ⟨sigs, parseSignatures_some.mpr (Parsed.toText sigs), hP⟩

/-- Counting against one list of keys. -/
theorem mapErr_validSignatures_eq_ok {keys : List PublicKey} {sigs : List Signature} {n : Nat} :
    (validSignatures env msg keys sigs).mapErr Nut14Error.nut11 = .ok n ↔
      (signedKeys env msg keys sigs).Nodup ∧ n = (signedKeys env msg keys sigs).length := by
  rw [Outcome.mapErr_eq_ok, validSignatures_eq_ok]

/-- The locktime block when it reads no refund keys. -/
theorem locktimeUnlocks_unchecked (env : Env) (now : Nat) (msg : List UInt8)
    (hr : c.checkedRefundKeys = none) (witness : HtlcWitness) :
    (OpenAt now c ∧ locktimeUnlocks env now msg c witness = .ok true) ∨
      (¬ OpenAt now c ∧ locktimeUnlocks env now msg c witness = .ok false) := by
  unfold locktimeUnlocks
  cases hl : c.locktime with
  | none =>
      refine .inr ⟨?_, rfl⟩
      rintro ⟨locktime, hl', -⟩
      rw [hl] at hl'
      cases hl'
  | some locktime =>
      have hnone : c.refundKeys = none := by
        simpa [Conditions.checkedRefundKeys, hl] using hr
      have hopen : OpenAt now c ↔ locktime < now := by
        simp [OpenAt, hl, hnone]
      rw [hnone, hopen]
      by_cases hlt : locktime < now
      · exact .inl ⟨hlt, by simp [hlt]⟩
      · exact .inr ⟨hlt, by simp [hlt]⟩

/-- The locktime block before the locktime, when it reads no refund keys. -/
theorem locktimeUnlocks_of_none (hlocked : Locked now (some c)) (hr : c.checkedRefundKeys = none)
    (witness : HtlcWitness) : locktimeUnlocks env now msg c witness = .ok false := by
  rcases locktimeUnlocks_unchecked env now msg hr witness with ⟨hopen, -⟩ | ⟨-, hl⟩
  · obtain ⟨locktime, hlocktime, -, hlt⟩ := hopen
    exact absurd (hlocked locktime hlocktime) (Nat.not_le_of_lt hlt)
  · exact hl

/-- The locktime block when it reads refund keys. -/
theorem locktimeUnlocks_of_some {keys : List PublicKey} (hr : c.checkedRefundKeys = some keys)
    {witness : HtlcWitness} {unlocked : Bool} :
    locktimeUnlocks env now msg c witness = .ok unlocked ↔
      ∃ sigs, parseSignatures witness.signatures = .ok sigs ∧
        (signedKeys env msg keys sigs).Nodup ∧
        unlocked = decide (signedKeys env msg keys sigs ≠ []) := by
  obtain ⟨locktime, hl, hkeys⟩ := Option.bind_eq_some_iff.mp hr
  have hcount : ∀ list : List PublicKey, decide (1 ≤ list.length) = decide (list ≠ []) := by
    intro list
    exact decide_eq_decide.mpr List.length_pos_iff
  simp only [locktimeUnlocks, hl, hkeys, Outcome.bind_eq_ok, mapErr_validSignatures_eq_ok,
    Outcome.ok.injEq]
  constructor
  · rintro ⟨sigs, hsigs, n, ⟨hnd, rfl⟩, rfl⟩
    exact ⟨sigs, hsigs, hnd, hcount _⟩
  · rintro ⟨sigs, hsigs, hnd, rfl⟩
    exact ⟨sigs, hsigs, _, ⟨hnd, rfl⟩, hcount _⟩

/-- What the two results of the locktime block say when it reads refund keys. -/
theorem locktimeUnlocks_checked (env : Env) (now : Nat) (msg : List UInt8)
    {refundKeys : List PublicKey} (hr : c.checkedRefundKeys = some refundKeys)
    (witness : HtlcWitness) :
    (locktimeUnlocks env now msg c witness = .ok true ↔ ∃ sigs,
        parseSignatures witness.signatures = .ok sigs ∧
        (signedKeys env msg refundKeys sigs).Nodup ∧ signedKeys env msg refundKeys sigs ≠ []) ∧
      (locktimeUnlocks env now msg c witness = .ok false ↔ ∃ sigs,
        parseSignatures witness.signatures = .ok sigs ∧
        signedKeys env msg refundKeys sigs = []) := by
  rw [locktimeUnlocks_of_some hr, locktimeUnlocks_of_some hr]
  constructor
  · simp only [eq_comm (a := true), decide_eq_true_eq]
  · apply exists_congr
    intro sigs
    apply and_congr_right'
    rw [eq_comm (a := false), decide_eq_false_iff_not, not_not]
    constructor
    · exact And.right
    · intro hnil
      rw [hnil]
      exact ⟨List.nodup_nil, rfl⟩

/-- The pubkeys block when keys are listed. -/
theorem pubkeysSigned_of_some {keys : List PublicKey} (hp : c.pubkeys = some keys)
    {witness : HtlcWitness} :
    pubkeysSigned env msg c witness = .ok () ↔
      ∃ sigs, parseSignatures witness.signatures = .ok sigs ∧
        (signedKeys env msg keys sigs).Nodup ∧
        c.numSigs.getD 1 ≤ (signedKeys env msg keys sigs).length := by
  simp only [pubkeysSigned, hp, Outcome.bind_eq_ok, mapErr_validSignatures_eq_ok,
    Outcome.ensure_eq_ok, decide_eq_true_eq]
  constructor
  · rintro ⟨sigs, hsigs, n, ⟨hnd, rfl⟩, hle⟩
    exact ⟨sigs, hsigs, hnd, hle⟩
  · rintro ⟨sigs, hsigs, hnd, hle⟩
    exact ⟨sigs, hsigs, _, ⟨hnd, rfl⟩, hle⟩

theorem pubkeysSigned_of_none (hp : c.pubkeys = none) (witness : HtlcWitness) :
    pubkeysSigned env msg c witness = .ok () := by
  rw [pubkeysSigned, hp]

theorem pubkeysSigned_iff {msg : List UInt8} {witness : HtlcWitness} :
    pubkeysSigned env msg c witness = .ok () ↔ ∀ keys, c.pubkeys = some keys → ∃ sigs,
      parseSignatures witness.signatures = .ok sigs ∧ (signedKeys env msg keys sigs).Nodup ∧
        c.numSigs.getD 1 ≤ (signedKeys env msg keys sigs).length := by
  cases hp : c.pubkeys with
  | none => simp [pubkeysSigned_of_none hp]
  | some keys => simp [pubkeysSigned_of_some hp]

/-- The hash lock of the sender against the text in the witness. -/
theorem preimageMatches_newHtlc {conditions : Option Conditions} {spending : SpendingConditions}
    {nonce : String} {texts : Option (List String)}
    (hnew : SpendingConditions.newHtlc env preimage conditions = .ok spending) :
    preimageMatches env (spending.toSecret nonce) ⟨preimage, texts⟩ = .ok () ↔
      HashAgrees env preimage := by
  simp only [SpendingConditions.newHtlc, Outcome.bind_eq_ok, Outcome.ok.injEq] at hnew
  obtain ⟨bytes, hbytes, rfl⟩ := hnew
  have hhash : HashAgrees env preimage ↔ env.sha256 bytes = env.sha256 (utf8 preimage) := by
    constructor
    · rintro ⟨bytes', hbytes', h⟩
      rw [hbytes] at hbytes'
      cases hbytes'
      exact h
    · intro h
      exact ⟨bytes, hbytes, h⟩
  simp only [preimageMatches, SpendingConditions.toSecret, Outcome.bind_eq_ok,
    Outcome.ensure_eq_ok, Outcome.ofOption_eq_ok, parseSha256_sha256Text, decide_eq_true_eq, hhash]
  constructor
  · rintro ⟨_, -, hash, hhash', h⟩
    cases hhash'
    exact h
  · intro h
    exact ⟨(), trivial, _, rfl, h⟩

end Blocks

/-! ## The check of an HTLC -/

section Htlc

variable {env : Env} {now : Nat} {text : String} {hash : BitVec 256} {c : Conditions}

theorem isHtlc_of_tryFrom {conditions : Option Conditions}
    (h : SpendingConditions.tryFrom env text = .ok (.htlc hash conditions)) :
    IsHtlc env text hash (effective conditions) := by
  simp only [SpendingConditions.tryFrom, Outcome.bind_eq_ok, Outcome.ofOption_eq_ok] at h
  obtain ⟨secret, hs, h⟩ := h
  cases hkind : secret.kind with
  | p2pk =>
      simp only [hkind, Outcome.bind_eq_ok, Outcome.ok.injEq, reduceCtorEq, and_false,
        exists_false] at h
  | htlc =>
      simp only [hkind, Outcome.bind_eq_ok, Outcome.ofOption_eq_ok, Outcome.ok.injEq,
        SpendingConditions.htlc.injEq] at h
      obtain ⟨data, hdata, tags, htags, rfl, rfl⟩ := h
      exact ⟨secret, tags, hs, hkind, hdata, htags, rfl⟩

/-- The three ways through the check of an HTLC. -/
theorem verifyHtlc_cases {proof : Proof} (h : IsHtlc env proof.secret hash c) :
    verifyHtlc env now proof = .ok () ↔
      ∃ witness, proof.witness = some (.htlc witness) ∧
        (OpenAt now c ∨
          (∃ refundKeys sigs, c.checkedRefundKeys = some refundKeys ∧
            parseSignatures witness.signatures = .ok sigs ∧
            (signedKeys env (utf8 proof.secret) refundKeys sigs).Nodup ∧
            signedKeys env (utf8 proof.secret) refundKeys sigs ≠ []) ∨
          (env.sha256 (utf8 witness.preimage) = hash ∧
            (∀ refundKeys, c.checkedRefundKeys = some refundKeys → ∃ sigs,
              parseSignatures witness.signatures = .ok sigs ∧
              signedKeys env (utf8 proof.secret) refundKeys sigs = []) ∧
            pubkeysSigned env (utf8 proof.secret) c witness = .ok ())) := by
  obtain ⟨secret, conditions, hs, hkind, hdata, htags, rfl⟩ := h
  rw [verifyHtlc_eq_ok hs htags]
  apply exists_congr
  intro witness
  apply and_congr_right'
  have heffective : ((∃ c, conditions = some c ∧
        locktimeUnlocks env now (utf8 proof.secret) c witness = .ok true) ∨
      (preimageMatches env secret witness = .ok () ∧ ∀ c, conditions = some c →
        locktimeUnlocks env now (utf8 proof.secret) c witness = .ok false ∧
          pubkeysSigned env (utf8 proof.secret) c witness = .ok ())) ↔
      locktimeUnlocks env now (utf8 proof.secret) (effective conditions) witness = .ok true ∨
        (preimageMatches env secret witness = .ok () ∧
          locktimeUnlocks env now (utf8 proof.secret) (effective conditions) witness = .ok false ∧
          pubkeysSigned env (utf8 proof.secret) (effective conditions) witness = .ok ()) := by
    cases conditions with
    | none =>
        have hlocked : locktimeUnlocks env now (utf8 proof.secret) (effective none) witness =
            .ok false := rfl
        have hunsigned : pubkeysSigned env (utf8 proof.secret) (effective none) witness = .ok () :=
          rfl
        simp [hlocked, hunsigned]
    | some c => simp [effective]
  have hpreimage : preimageMatches env secret witness = .ok () ↔
      env.sha256 (utf8 witness.preimage) = hash := by
    simp only [preimageMatches, hkind, hdata, Outcome.bind_eq_ok, Outcome.ensure_eq_ok,
      Outcome.ofOption_eq_ok, Option.some.injEq, decide_eq_true_eq]
    constructor
    · rintro ⟨_, -, _, rfl, hhash⟩
      exact hhash.symm
    · intro hhash
      exact ⟨(), trivial, hash, rfl, hhash.symm⟩
  rw [heffective, hpreimage]
  generalize effective conditions = c
  cases hr : c.checkedRefundKeys with
  | none =>
      rcases locktimeUnlocks_unchecked env now (utf8 proof.secret) hr witness with
        ⟨hopen, hl⟩ | ⟨hopen, hl⟩
      · simp [hopen, hl]
      · simp [hopen, hl]
  | some refundKeys =>
      have hopen : ¬ OpenAt now c := by
        rintro ⟨locktime, hl, hnone, -⟩
        simp [Conditions.checkedRefundKeys, hl, hnone] at hr
      obtain ⟨htrue, hfalse⟩ := locktimeUnlocks_checked env now (utf8 proof.secret) hr witness
      rw [htrue, hfalse]
      simp [hopen]

end Htlc

/-! ## What the receiver builds -/

section Built

variable {env : Env} {curve : Curve SecretKey} {now : Nat} {preimage : String} {proof : Proof}
variable {signers : List (Signer SecretKey)}

/-- The witness that the receiver builds. -/
theorem witness_built (env : Env) (curve : Curve SecretKey) (preimage : String) (proof : Proof)
    (signers : List (Signer SecretKey)) :
    ((proof.addPreimage preimage).signP2pkBy env curve signers).witness =
      some (.htlc ⟨preimage, (proof.witness.bind Witness.signatures).map
        (· ++ (signaturesOn env curve proof.secret signers).map Signature.toText)⟩) := by
  rw [Proof.signP2pkBy_eq]
  exact Proof.addSignatures_htlc _ rfl

theorem secret_built :
    ((proof.addPreimage preimage).signP2pkBy env curve signers).secret = proof.secret := by
  rw [Proof.signP2pkBy_eq, Proof.addSignatures_secret]
  rfl

/-- The built list parses when there was a list that parsed. -/
theorem parseSignatures_built {texts : Option (List String)} {new sigs : List Signature} :
    parseSignatures (texts.map (· ++ new.map Signature.toText)) = .ok sigs ↔
      ∃ old oldSigs, texts = some old ∧ Parsed old oldSigs ∧ sigs = oldSigs ++ new := by
  cases texts with
  | none =>
      rw [Option.map_none, parseSignatures_none]
      simp
  | some old =>
      rw [Option.map_some, parseSignatures_some, Parsed.append_iff (Parsed.toText new)]
      constructor
      · rintro ⟨oldSigs, hold, rfl⟩
        exact ⟨old, oldSigs, rfl, hold, rfl⟩
      · rintro ⟨_, oldSigs, ⟨⟩, hold, rfl⟩
        exact ⟨oldSigs, hold, rfl⟩

/-- The keys met by the built list. -/
theorem signedKeys_built (ideal : curve.Ideal env) (keys : List PublicKey)
    (sigs : List Signature) :
    (signedKeys env (utf8 proof.secret) keys
      (sigs ++ signaturesOn env curve proof.secret signers)).Perm
        (metKeys env (utf8 proof.secret) keys sigs (signers.map curve.xOf)) :=
  signedKeys_join_perm ideal rfl keys sigs signers

/-- Enough signers meet enough keys. -/
theorem EnoughSigners.le_met {conditions : Option Conditions} {keys : List PublicKey}
    (h : EnoughSigners curve conditions signers)
    (hp : conditions.bind Conditions.pubkeys = some keys) (msg : List UInt8)
    (sigs : List Signature) :
    (conditions.bind Conditions.numSigs).getD 1 ≤
      (metKeys env msg keys sigs (signers.map curve.xOf)).length := by
  rw [EnoughSigners, hp] at h
  obtain ⟨hnd, hmem, hle⟩ := h
  have hsub : (signers.map fun signer => curve.publicKey signer.key) ⊆
      metKeys env msg keys sigs (signers.map curve.xOf) := by
    intro key hkey
    obtain ⟨signer, hsigner, rfl⟩ := List.mem_map.mp hkey
    refine List.mem_append_right _ (mem_matchedKeys.mpr ⟨hmem signer hsigner, ?_⟩)
    exact List.mem_map_of_mem hsigner
  have hlen := (List.subperm_of_subset hnd hsub).length_le
  rw [List.length_map] at hlen
  exact hle.trans hlen

/-- The locktime block on the built witness. -/
theorem locktimeUnlocks_built (ideal : curve.Ideal env) {c : Conditions} {keys : List PublicKey}
    (hr : c.checkedRefundKeys = some keys) {unlocked : Bool} :
    locktimeUnlocks env now (utf8 proof.secret) c
        ⟨preimage, (proof.witness.bind Witness.signatures).map
          (· ++ (signaturesOn env curve proof.secret signers).map Signature.toText)⟩ = .ok unlocked ↔
      ∃ texts sigs, proof.witness.bind Witness.signatures = some texts ∧ Parsed texts sigs ∧
        (metKeys env (utf8 proof.secret) keys sigs (signers.map curve.xOf)).Nodup ∧
        unlocked = decide
          (metKeys env (utf8 proof.secret) keys sigs (signers.map curve.xOf) ≠ []) := by
  rw [locktimeUnlocks_of_some hr]
  have hmet : ∀ sigs : List Signature,
      ((signedKeys env (utf8 proof.secret) keys
          (sigs ++ signaturesOn env curve proof.secret signers)).Nodup ↔
        (metKeys env (utf8 proof.secret) keys sigs (signers.map curve.xOf)).Nodup) ∧
      (signedKeys env (utf8 proof.secret) keys
          (sigs ++ signaturesOn env curve proof.secret signers) = [] ↔
        metKeys env (utf8 proof.secret) keys sigs (signers.map curve.xOf) = []) := by
    intro sigs
    have hperm : (signedKeys env (utf8 proof.secret) keys
        (sigs ++ signaturesOn env curve proof.secret signers)).Perm _ := signedKeys_built ideal keys sigs
    refine ⟨hperm.nodup_iff, ?_⟩
    rw [← List.length_eq_zero_iff, hperm.length_eq, List.length_eq_zero_iff]
  constructor
  · rintro ⟨_, hparse, hnd, rfl⟩
    obtain ⟨texts, sigs, htexts, hsigs, rfl⟩ := parseSignatures_built.mp hparse
    refine ⟨texts, sigs, htexts, hsigs, (hmet sigs).1.mp hnd, ?_⟩
    exact decide_eq_decide.mpr (not_congr (hmet sigs).2)
  · rintro ⟨texts, sigs, htexts, hsigs, hnd, rfl⟩
    refine ⟨_, parseSignatures_built.mpr ⟨texts, sigs, htexts, hsigs, rfl⟩,
      (hmet sigs).1.mpr hnd, ?_⟩
    exact decide_eq_decide.mpr (not_congr (hmet sigs).2.symm)

/-- The pubkeys block on the built witness. -/
theorem pubkeysSigned_built (ideal : curve.Ideal env) {c : Conditions} {keys : List PublicKey}
    (hp : c.pubkeys = some keys) (henough : EnoughSigners curve (some c) signers) :
    pubkeysSigned env (utf8 proof.secret) c
        ⟨preimage, (proof.witness.bind Witness.signatures).map
          (· ++ (signaturesOn env curve proof.secret signers).map Signature.toText)⟩ = .ok () ↔
      ∃ texts sigs, proof.witness.bind Witness.signatures = some texts ∧ Parsed texts sigs ∧
        (metKeys env (utf8 proof.secret) keys sigs (signers.map curve.xOf)).Nodup := by
  rw [pubkeysSigned_of_some hp]
  constructor
  · rintro ⟨_, hparse, hnd, -⟩
    obtain ⟨texts, sigs, htexts, hsigs, rfl⟩ := parseSignatures_built.mp hparse
    exact ⟨texts, sigs, htexts, hsigs, (signedKeys_built ideal keys sigs).nodup_iff.mp hnd⟩
  · rintro ⟨texts, sigs, htexts, hsigs, hnd⟩
    have hperm : (signedKeys env (utf8 proof.secret) keys
        (sigs ++ signaturesOn env curve proof.secret signers)).Perm _ := signedKeys_built ideal keys sigs
    refine ⟨_, parseSignatures_built.mpr ⟨texts, sigs, htexts, hsigs, rfl⟩,
      hperm.nodup_iff.mpr hnd, ?_⟩
    rw [hperm.length_eq]
    exact henough.le_met hp (utf8 proof.secret) sigs

/-- The blocks of the check on the built witness, under conditions that are there. -/
theorem unlocks_built_iff (ideal : curve.Ideal env) {c : Conditions}
    (hlocked : Locked now (some c)) (henough : EnoughSigners curve (some c) signers)
    {witness : HtlcWitness}
    (hwitness : witness = ⟨preimage, (proof.witness.bind Witness.signatures).map
      (· ++ (signaturesOn env curve proof.secret signers).map Signature.toText)⟩) :
    locktimeUnlocks env now (utf8 proof.secret) c witness = .ok true ∨
        (HashAgrees env preimage ∧
          locktimeUnlocks env now (utf8 proof.secret) c witness = .ok false ∧
          pubkeysSigned env (utf8 proof.secret) c witness = .ok ()) ↔
      (HashAgrees env preimage ∧ c.checkedRefundKeys = none ∧ c.pubkeys = none) ∨
        SignaturesUnlock env preimage c proof (signers.map curve.xOf) := by
  subst hwitness
  constructor
  · rintro (hl | ⟨hhash, hl, hp⟩)
    · cases hr : c.checkedRefundKeys with
      | none =>
          rw [locktimeUnlocks_of_none hlocked hr] at hl
          cases hl
      | some keys =>
          obtain ⟨texts, sigs, htexts, hsigs, hnd, hne⟩ := (locktimeUnlocks_built ideal hr).mp hl
          refine .inr ⟨texts, sigs, htexts, hsigs, ?_, .inl ⟨keys, hr, ?_⟩⟩
          · rintro _ hr'
            cases hr.symm.trans hr'
            exact hnd
          · simpa using hne
    · cases hr : c.checkedRefundKeys with
      | none =>
          cases hpk : c.pubkeys with
          | none => exact .inl ⟨hhash, rfl, rfl⟩
          | some keys =>
              obtain ⟨texts, sigs, htexts, hsigs, hnd⟩ :=
                (pubkeysSigned_built ideal hpk henough).mp hp
              refine .inr ⟨texts, sigs, htexts, hsigs, by simp [hr], .inr ⟨hhash, ?_⟩⟩
              rintro _ hpk'
              cases hpk.symm.trans hpk'
              exact hnd
      | some refundKeys =>
          obtain ⟨texts, sigs, htexts, hsigs, hnd, -⟩ := (locktimeUnlocks_built ideal hr).mp hl
          refine .inr ⟨texts, sigs, htexts, hsigs, ?_, .inr ⟨hhash, ?_⟩⟩
          · rintro _ hr'
            cases hr.symm.trans hr'
            exact hnd
          · intro keys hpk
            obtain ⟨texts', sigs', htexts', hsigs', hnd'⟩ :=
              (pubkeysSigned_built ideal hpk henough).mp hp
            cases htexts.symm.trans htexts'
            rw [hsigs.unique hsigs']
            exact hnd'
  · rintro (⟨hhash, hr, hpk⟩ | ⟨texts, sigs, htexts, hsigs, hrefund, h⟩)
    · exact .inr ⟨hhash, locktimeUnlocks_of_none hlocked hr _, pubkeysSigned_of_none hpk _⟩
    · by_cases hmet : ∃ keys, c.checkedRefundKeys = some keys ∧
          metKeys env (utf8 proof.secret) keys sigs (signers.map curve.xOf) ≠ []
      · obtain ⟨keys, hr, hne⟩ := hmet
        refine .inl ((locktimeUnlocks_built ideal hr).mpr ?_)
        exact ⟨texts, sigs, htexts, hsigs, hrefund keys hr, (decide_eq_true hne).symm⟩
      · obtain ⟨hhash, hpub⟩ := h.resolve_left hmet
        refine .inr ⟨hhash, ?_, ?_⟩
        · cases hr : c.checkedRefundKeys with
          | none => exact locktimeUnlocks_of_none hlocked hr _
          | some keys =>
              have hnil : ¬ metKeys env (utf8 proof.secret) keys sigs
                  (signers.map curve.xOf) ≠ [] := fun hne => hmet ⟨keys, hr, hne⟩
              refine (locktimeUnlocks_built ideal hr).mpr ?_
              exact ⟨texts, sigs, htexts, hsigs, hrefund keys hr, (decide_eq_false hnil).symm⟩
        · cases hpk : c.pubkeys with
          | none => exact pubkeysSigned_of_none hpk _
          | some keys =>
              refine (pubkeysSigned_built ideal hpk henough).mpr ?_
              exact ⟨texts, sigs, htexts, hsigs, hpub keys hpk⟩

end Built

/-- For every preimage, every condition before its locktime, every proof and all signers: what
the receiver builds is accepted exactly under the condition above. -/
theorem verifyHtlc_unlocks_iff (env : Env) (curve : Curve SecretKey) (ideal : curve.Ideal env)
    (now : Nat) (preimage : String) (conditions : Option Conditions)
    (spending : SpendingConditions)
    (hnew : SpendingConditions.newHtlc env preimage conditions = .ok spending)
    (hread : ∀ c, conditions = some c → c.Readable env) (hlocked : Locked now conditions)
    (proof : Proof) (nonce : String)
    (hs : env.parseSecret proof.secret = some (spending.toSecret nonce))
    (signers : List (Signer SecretKey)) (henough : EnoughSigners curve conditions signers) :
    verifyHtlc env now ((proof.addPreimage preimage).signP2pkBy env curve signers) = .ok () ↔
      HtlcUnlocks env preimage conditions proof (signers.map curve.xOf) := by
  have htags : (spending.toSecret nonce).secretData.tags = conditions.map Conditions.toTags := by
    simp only [SpendingConditions.newHtlc, Outcome.bind_eq_ok, Outcome.ok.injEq] at hnew
    obtain ⟨bytes, -, rfl⟩ := hnew
    rfl
  have hs' : env.parseSecret ((proof.addPreimage preimage).signP2pkBy env curve signers).secret =
      some (spending.toSecret nonce) := by
    rw [secret_built]
    exact hs
  rw [verifyHtlc_eq_ok hs' (Conditions.ofSecret_of_tags htags hread), witness_built,
    secret_built]
  simp only [Option.some.injEq, Witness.htlc.injEq, exists_eq_left', preimageMatches_newHtlc hnew]
  cases conditions with
  | none => simp [HtlcUnlocks]
  | some c =>
      simp only [HtlcUnlocks, Option.some.injEq, exists_eq_left', forall_eq']
      exact unlocks_built_iff ideal hlocked henough rfl

/-- A proof without signatures unlocks only when no key is asked for and the hashes agree. -/
theorem htlcUnlocks_fresh {env : Env} {preimage : String} {conditions : Option Conditions}
    {proof : Proof} (hfresh : proof.witness.bind Witness.signatures = none)
    (xs : List (BitVec 256)) :
    HtlcUnlocks env preimage conditions proof xs ↔ HashAgrees env preimage ∧
      ∀ c, conditions = some c → c.checkedRefundKeys = none ∧ c.pubkeys = none := by
  constructor
  · rintro (h | ⟨c, -, texts, sigs, htexts, -⟩)
    · exact h
    · rw [hfresh] at htexts
      cases htexts
  · exact .inl

/-! ## A preimage of one byte -/

/-- No field is set. -/
def plainConditions : Conditions where
  locktime := none
  pubkeys := none
  refundKeys := none
  numSigs := none
  sigFlag := .sigInputs
  numSigsRefund := none

def byteNonce : String := "859d4935c4907062a6297cf4e663e2835d90d97ecdd510745d32f6816323a41f"

/-- The lock to the one byte that the text `00` encodes. -/
def byteSpending : SpendingConditions := .htlc 1 (some plainConditions)

def byteSecretText : String := "[\"HTLC\",\x7b\"nonce\":\"" ++ byteNonce ++
  "\",\"data\":\"" ++ sha256Text 1 ++ "\",\"tags\":[[\"sigflag\",\"SIG_INPUTS\"]]\x7d]"

/-- Signatures are ideal and a hash tells the length of its bytes. -/
def byteEnv : Env :=
  { (Env.ofSecrets [(byteSecretText, byteSpending.toSecret byteNonce)]).echo with
    sha256 := fun bytes => BitVec.ofNat 256 bytes.length }

def byteProof : Proof := ⟨Amount.one, .v1 0, byteSecretText, evenPoint, none⟩

theorem byteEnv_parseSecret :
    byteEnv.parseSecret byteProof.secret = some (byteSpending.toSecret byteNonce) := by
  simp only [byteEnv, byteProof, Env.echo, Env.ofSecrets, List.lookup_cons_self]

theorem plainConditions_readable (env : Env) : plainConditions.Readable env := by
  intro tag htag
  rw [List.mem_singleton.mp htag]
  trivial

theorem plainConditions_locked (now : Nat) : Locked now (some plainConditions) := by
  intro locktime hl
  cases hl

/-- The holder of the preimage is refused. -/
theorem verifyHtlc_refuses_preimage :
    SpendingConditions.newHtlc byteEnv "00" (some plainConditions) = .ok byteSpending ∧
      plainConditions.Readable byteEnv ∧ Locked 1700000000 (some plainConditions) ∧
      byteEnv.parseSecret byteProof.secret = some (byteSpending.toSecret byteNonce) ∧
      EnoughSigners echoCurve (some plainConditions) [] ∧
      verifyHtlc byteEnv 1700000000
        ((byteProof.addPreimage "00").signP2pkBy byteEnv echoCurve []) = .err .preimage := by
  refine ⟨by decide +kernel, plainConditions_readable byteEnv, plainConditions_locked _,
    byteEnv_parseSecret, rfl, ?_⟩
  decide +kernel

theorem verifyHtlc_unlocks_iff_at_byte :
    verifyHtlc byteEnv 1700000000
        ((byteProof.addPreimage "00").signP2pkBy byteEnv echoCurve []) = .ok () ↔
      HtlcUnlocks byteEnv "00" (some plainConditions) byteProof [] := by
  refine verifyHtlc_unlocks_iff byteEnv echoCurve ?_ 1700000000 "00" (some plainConditions)
    byteSpending (by decide +kernel) ?_ (plainConditions_locked _) byteProof byteNonce
    byteEnv_parseSecret [] rfl
  · exact echo_ideal { byteEnv with verifySchnorr := fun _ _ _ => false }
  · rintro _ ⟨⟩
    exact plainConditions_readable byteEnv

end Cdk
