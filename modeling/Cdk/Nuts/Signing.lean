import Cdk.Nuts.Threshold

/-!
# Signing

What the owners of private keys do to proofs and requests: a signature is
appended to the witness of the proof, or of the first input when the whole
request is signed.

The curve library is a parameter. Its signatures are ideal when a signature is
valid for the `x` coordinate of its key and the digest it was made on, and for
nothing else. What ideal signatures count for is then determined by the list of
the signers' `x` coordinates.
-/

namespace Cdk

open Lib

variable {SecretKey : Type}

/-- The curve library for the owner of a private key; signing draws randomness. -/
structure Curve (SecretKey : Type) where
  publicKey : SecretKey → PublicKey
  signSchnorr : SecretKey → BitVec 256 → BitVec 256 → Signature

/-- A private key and the randomness its signature draws. -/
structure Signer (SecretKey : Type) where
  key : SecretKey
  aux : BitVec 256

namespace Curve

/-- `SecretKey::sign`: a Schnorr signature on the hash of a message. -/
def sign (curve : Curve SecretKey) (env : Env) (signer : Signer SecretKey) (msg : List UInt8) :
    Signature :=
  curve.signSchnorr signer.key signer.aux (env.sha256 msg)

/-- The `x` coordinate of a signer's public key. -/
def xOf (curve : Curve SecretKey) (signer : Signer SecretKey) : BitVec 256 :=
  (curve.publicKey signer.key).x

/-- A signature is valid exactly for the `x` coordinate and the digest it was made for. -/
def Ideal (curve : Curve SecretKey) (env : Env) : Prop :=
  ∀ key aux digest x digest',
    env.verifySchnorr x digest' (curve.signSchnorr key aux digest) = true ↔
      x = (curve.publicKey key).x ∧ digest' = digest

end Curve

/-- The signatures of the signers on a text. -/
def signaturesOn (env : Env) (curve : Curve SecretKey) (msg : String)
    (signers : List (Signer SecretKey)) : List Signature :=
  signers.map fun signer => curve.sign env signer (utf8 msg)

/-! ## Signing a proof -/

/-- `Witness::add_signatures`. An HTLC witness without signatures stays without. -/
def Witness.addSignatures (texts : List String) : Witness → Witness
  | .p2pk w => .p2pk ⟨w.signatures ++ texts⟩
  | .htlc w => .htlc ⟨w.preimage, w.signatures.map (· ++ texts)⟩

/-- Append a signature to the witness of a proof, which is a P2PK witness if there was none. -/
def Proof.addSignature (sig : Signature) (proof : Proof) : Proof :=
  { proof with
    witness := some ((proof.witness.getD (.p2pk ⟨[]⟩)).addSignatures [sig.toText]) }

/-- `Proof::sign_p2pk`. -/
def Proof.signP2pk (env : Env) (curve : Curve SecretKey) (signer : Signer SecretKey)
    (proof : Proof) : Proof :=
  proof.addSignature (curve.sign env signer (utf8 proof.secret))

/-- Append signatures one after the other. -/
def Proof.addSignatures (sigs : List Signature) (proof : Proof) : Proof :=
  sigs.foldl (fun proof sig => proof.addSignature sig) proof

@[simp] theorem Proof.addSignature_secret (sig : Signature) (proof : Proof) :
    (proof.addSignature sig).secret = proof.secret := rfl

@[simp] theorem Proof.addSignatures_secret (sigs : List Signature) (proof : Proof) :
    (proof.addSignatures sigs).secret = proof.secret := by
  induction sigs generalizing proof with
  | nil => rfl
  | cons sig rest ih => exact ih (proof.addSignature sig)

theorem Proof.addSignatures_p2pk (sigs : List Signature) {proof : Proof} {texts : List String}
    (h : proof.witness = some (.p2pk ⟨texts⟩)) :
    (proof.addSignatures sigs).witness = some (.p2pk ⟨texts ++ sigs.map Signature.toText⟩) := by
  induction sigs generalizing proof texts with
  | nil => simpa [Proof.addSignatures] using h
  | cons sig rest ih =>
      have hstep : (proof.addSignature sig).witness = some (.p2pk ⟨texts ++ [sig.toText]⟩) := by
        simp [Proof.addSignature, h, Witness.addSignatures]
      have htail := ih hstep
      simpa [Proof.addSignatures, List.append_assoc] using htail

/-- A proof without a witness carries the signatures that were added, if there were any. -/
theorem Proof.addSignatures_none (sigs : List Signature) {proof : Proof}
    (h : proof.witness = none) :
    (proof.addSignatures sigs).witness.bind Witness.signatures =
      if sigs = [] then none else some (sigs.map Signature.toText) := by
  cases sigs with
  | nil => simp [Proof.addSignatures, h]
  | cons sig rest =>
      have hstep : (proof.addSignature sig).witness = some (.p2pk ⟨[sig.toText]⟩) := by
        simp [Proof.addSignature, h, Witness.addSignatures]
      have htail := Proof.addSignatures_p2pk rest hstep
      have hfold : proof.addSignatures (sig :: rest) =
          (proof.addSignature sig).addSignatures rest := rfl
      simp [hfold, htail, Witness.signatures]

/-- An HTLC witness keeps its preimage; added signatures only join a list that is there. -/
theorem Proof.addSignatures_htlc (sigs : List Signature) {proof : Proof} {preimage : String}
    {texts : Option (List String)} (h : proof.witness = some (.htlc ⟨preimage, texts⟩)) :
    (proof.addSignatures sigs).witness =
      some (.htlc ⟨preimage, texts.map (· ++ sigs.map Signature.toText)⟩) := by
  induction sigs generalizing proof texts with
  | nil => cases texts <;> simpa [Proof.addSignatures] using h
  | cons sig rest ih =>
      have hstep : (proof.addSignature sig).witness =
          some (.htlc ⟨preimage, texts.map (· ++ [sig.toText])⟩) := by
        simp [Proof.addSignature, h, Witness.addSignatures]
      have htail := ih hstep
      cases texts <;> simpa [Proof.addSignatures, List.append_assoc] using htail

/-- `Proof::sign_p2pk` by one signer after the other. -/
def Proof.signP2pkBy (env : Env) (curve : Curve SecretKey) (signers : List (Signer SecretKey))
    (proof : Proof) : Proof :=
  signers.foldl (fun proof signer => proof.signP2pk env curve signer) proof

/-- All signatures are on the secret, which signing does not change. -/
theorem Proof.signP2pkBy_eq (env : Env) (curve : Curve SecretKey)
    (signers : List (Signer SecretKey)) (proof : Proof) :
    proof.signP2pkBy env curve signers =
      proof.addSignatures (signers.map fun signer =>
        curve.sign env signer (utf8 proof.secret)) := by
  induction signers generalizing proof with
  | nil => rfl
  | cons signer rest ih => exact ih (proof.signP2pk env curve signer)

/-- `Proof::add_preimage`. -/
def Proof.addPreimage (preimage : String) (proof : Proof) : Proof :=
  { proof with witness := some (.htlc ⟨preimage, proof.witness.bind Witness.signatures⟩) }

/-! ## Signing a request -/

/-- `can_sign_sig_all`. -/
def canSignSigAll (env : Env) (curve : Curve SecretKey) (key : SecretKey) (inputs : List Proof) :
    Outcome Nut11Error (SpendingConditions × PublicKey) := do
  let first ← Outcome.ofOption .spendConditionsNotMet inputs.head?
  let spending ← SpendingConditions.tryFrom env first.secret
  match spending with
  | .p2pk _ conditions => do
      let c ← Outcome.ofOption .incorrectSecretKind conditions
      Outcome.ensure (c.sigFlag = .sigAll) .incorrectSecretKind
  | .htlc _ _ => .err .incorrectSecretKind
  let authorized ← Outcome.ofOption .p2pkPubkeyRequired spending.pubkeys
  Outcome.ensure (curve.publicKey key ∈ authorized) .spendConditionsNotMet
  .ok (spending, curve.publicKey key)

/-- The signing that swap and melt requests share; they differ in the message that is signed
and in the error for a missing input. -/
def signSigAll (env : Env) (curve : Curve SecretKey) (missing : Nut11Error) (msg : String)
    (signer : Signer SecretKey) (inputs : List Proof) : Outcome Nut11Error (List Proof) := do
  let _ ← canSignSigAll env curve signer.key inputs
  verifyMatchingConditions env inputs
  let sig := curve.sign env signer (utf8 msg)
  match inputs with
  | first :: rest => .ok (first.addSignature sig :: rest)
  | [] => .err missing

def SwapRequest.signSigAll (env : Env) (curve : Curve SecretKey) (request : SwapRequest)
    (signer : Signer SecretKey) : Outcome Nut11Error SwapRequest := do
  let inputs ← Cdk.signSigAll env curve .incorrectSecretKind request.sigAllMsgToSign signer
    request.inputs
  .ok { request with inputs := inputs }

def MeltRequest.signSigAll (env : Env) (curve : Curve SecretKey) (request : MeltRequest)
    (signer : Signer SecretKey) : Outcome Nut11Error MeltRequest := do
  let inputs ← Cdk.signSigAll env curve .spendConditionsNotMet request.sigAllMsgToSign signer
    request.inputs
  .ok { request with inputs := inputs }

/-! ## What ideal signatures count for -/

/-- The listed keys, one entry for each signer with the same `x` coordinate. -/
def matchedKeys (keys : List PublicKey) (xs : List (BitVec 256)) : List PublicKey :=
  keys.flatMap fun key => List.replicate (xs.count key.x) key

section Counting

variable {env : Env} {curve : Curve SecretKey}

theorem verify_sign (ideal : curve.Ideal env) {signer : Signer SecretKey} {msg msg' : List UInt8}
    {key : PublicKey} :
    key.verify env msg' (curve.sign env signer msg) = true ↔
      key.x = curve.xOf signer ∧ env.sha256 msg' = env.sha256 msg :=
  ideal signer.key signer.aux (env.sha256 msg) key.x (env.sha256 msg')

/-- The count of ideal signatures on a message with the same digest. -/
theorem signedKeys_sign (ideal : curve.Ideal env) {msg msg' : List UInt8}
    (hd : env.sha256 msg' = env.sha256 msg) (keys : List PublicKey)
    (signers : List (Signer SecretKey)) :
    signedKeys env msg' keys (signers.map fun signer => curve.sign env signer msg) =
      matchedKeys keys (signers.map curve.xOf) := by
  have hkey : ∀ key : PublicKey,
      ((signers.map fun signer => curve.sign env signer msg).filter (key.verify env msg')).map
          (fun _ => key) =
        List.replicate ((signers.map curve.xOf).count key.x) key := by
    intro key
    induction signers with
    | nil => rfl
    | cons signer rest ih =>
        rw [List.map_cons, List.map_cons, List.filter_cons, List.count_cons]
        by_cases hx : key.x = curve.xOf signer
        · have hv : key.verify env msg' (curve.sign env signer msg) = true :=
            (verify_sign ideal).mpr ⟨hx, hd⟩
          rw [if_pos hv, List.map_cons, ih, hx, if_pos (beq_self_eq_true _), List.replicate_succ]
        · have hv : ¬ key.verify env msg' (curve.sign env signer msg) = true := fun h =>
            hx ((verify_sign ideal).mp h).1
          have hne : ¬ (curve.xOf signer == key.x) = true := by
            simpa using fun h => hx (Eq.symm h)
          rw [if_neg hv, ih, if_neg hne, Nat.add_zero]
  unfold signedKeys matchedKeys
  simp only [hkey]

/-- Ideal signatures count for nothing on a message with another digest. -/
theorem signedKeys_sign_of_ne (ideal : curve.Ideal env) {msg msg' : List UInt8}
    (hd : env.sha256 msg' ≠ env.sha256 msg) (keys : List PublicKey)
    (signers : List (Signer SecretKey)) :
    signedKeys env msg' keys (signers.map fun signer => curve.sign env signer msg) = [] := by
  apply List.eq_nil_iff_forall_not_mem.mpr
  intro key hkey
  obtain ⟨-, sig, hsig, hv⟩ := mem_signedKeys.mp hkey
  obtain ⟨signer, -, rfl⟩ := List.mem_map.mp hsig
  exact hd ((verify_sign ideal).mp hv).2

theorem mem_matchedKeys {keys : List PublicKey} {xs : List (BitVec 256)} {key : PublicKey} :
    key ∈ matchedKeys keys xs ↔ key ∈ keys ∧ key.x ∈ xs := by
  simp only [matchedKeys, List.mem_flatMap, List.mem_replicate]
  constructor
  · rintro ⟨k, hk, hne, rfl⟩
    exact ⟨hk, List.count_pos_iff.mp (Nat.pos_of_ne_zero hne)⟩
  · rintro ⟨hk, hx⟩
    exact ⟨key, hk, (List.count_pos_iff.mpr hx).ne', rfl⟩

/-- No key is matched twice exactly when the matched keys are listed once and have one signer. -/
theorem nodup_matchedKeys {keys : List PublicKey} {xs : List (BitVec 256)} :
    (matchedKeys keys xs).Nodup ↔
      (keys.filter fun key => key.x ∈ xs).Nodup ∧ ∀ key ∈ keys, xs.count key.x ≤ 1 := by
  induction keys with
  | nil => simp [matchedKeys]
  | cons key rest ih =>
      have hcons : matchedKeys (key :: rest) xs =
          List.replicate (xs.count key.x) key ++ matchedKeys rest xs := rfl
      rw [hcons, List.nodup_append', List.nodup_replicate, ih, List.forall_mem_cons]
      by_cases hx : key.x ∈ xs
      · have hpos : xs.count key.x ≠ 0 := (List.count_pos_iff.mpr hx).ne'
        have hdisjoint : (List.replicate (xs.count key.x) key).Disjoint (matchedKeys rest xs) ↔
            key ∉ rest := by
          constructor
          · intro h hk
            exact h (List.mem_replicate.mpr ⟨hpos, rfl⟩) (mem_matchedKeys.mpr ⟨hk, hx⟩)
          · intro hk k hk₁ hk₂
            rw [(List.mem_replicate.mp hk₁).2] at hk₂
            exact hk (mem_matchedKeys.mp hk₂).1
        rw [List.filter_cons_of_pos (by simpa using hx), List.nodup_cons, List.mem_filter,
          hdisjoint]
        simp only [hx, decide_true, and_true]
        tauto
      · have hzero : xs.count key.x = 0 := List.count_eq_zero.mpr hx
        rw [List.filter_cons_of_neg (by simpa using hx), hzero]
        simp

/-- When no key is matched twice, the matched keys are the listed keys of the signers. -/
theorem matchedKeys_eq_filter {keys : List PublicKey} {xs : List (BitVec 256)}
    (h : ∀ key ∈ keys, xs.count key.x ≤ 1) :
    matchedKeys keys xs = keys.filter fun key => key.x ∈ xs := by
  induction keys with
  | nil => rfl
  | cons key rest ih =>
      have hcons : matchedKeys (key :: rest) xs =
          List.replicate (xs.count key.x) key ++ matchedKeys rest xs := rfl
      rw [hcons, ih fun k hk => h k (List.mem_cons_of_mem _ hk)]
      by_cases hx : key.x ∈ xs
      · have hone : xs.count key.x = 1 :=
          Nat.le_antisymm (h key List.mem_cons_self) (List.count_pos_iff.mpr hx)
        rw [hone, List.filter_cons_of_pos (by simpa using hx)]
        rfl
      · rw [List.count_eq_zero.mpr hx, List.filter_cons_of_neg (by simpa using hx)]
        rfl

/-- The listed keys met by signatures that are there and by new signers. -/
def metKeys (env : Env) (msg : List UInt8) (keys : List PublicKey) (sigs : List Signature)
    (xs : List (BitVec 256)) : List PublicKey :=
  signedKeys env msg keys sigs ++ matchedKeys keys xs

/-- What signatures count for when ideal ones on a message with the same digest join them. -/
theorem signedKeys_join_perm (ideal : curve.Ideal env) {msg msg' : List UInt8}
    (hd : env.sha256 msg' = env.sha256 msg) (keys : List PublicKey) (sigs : List Signature)
    (signers : List (Signer SecretKey)) :
    (signedKeys env msg' keys
      (sigs ++ signers.map fun signer => curve.sign env signer msg)).Perm
        (metKeys env msg' keys sigs (signers.map curve.xOf)) := by
  rw [metKeys, ← signedKeys_sign ideal hd]
  exact signedKeys_append_perm sigs _

/-- Ideal signatures on a message with another digest add nothing. -/
theorem signedKeys_join_perm_of_ne (ideal : curve.Ideal env) {msg msg' : List UInt8}
    (hd : env.sha256 msg' ≠ env.sha256 msg) (keys : List PublicKey) (sigs : List Signature)
    (signers : List (Signer SecretKey)) :
    (signedKeys env msg' keys
      (sigs ++ signers.map fun signer => curve.sign env signer msg)).Perm
        (signedKeys env msg' keys sigs) := by
  refine (signedKeys_append_perm sigs _).trans ?_
  rw [signedKeys_sign_of_ne ideal hd, List.append_nil]

end Counting

/-! ## What a set of keys reaches -/

/-- The entries at given `x` coordinates where no entry is repeated. -/
def usableKeys (keys : List PublicKey) (xs : List (BitVec 256)) : List PublicKey :=
  (keysAt xs keys).filter fun key => (keys.filter fun other => other.x = key.x).Nodup

section Usable

variable {keys : List PublicKey} {xs : List (BitVec 256)}

/-- Entries at several coordinates are distinct when those at each of them are. -/
theorem nodup_keysAt (h : ∀ x ∈ xs, (keys.filter fun key => key.x = x).Nodup) :
    (keysAt xs keys).Nodup := by
  rw [List.nodup_iff_count_le_one]
  intro key
  by_cases hx : key.x ∈ xs
  · have hle : (keysAt xs keys).count key ≤ keys.count key :=
      List.Sublist.count_le key List.filter_sublist
    have hcount : (keys.filter fun other => other.x = key.x).count key = keys.count key :=
      List.count_filter (by simp)
    have hone := List.nodup_iff_count_le_one.mp (h key.x hx) key
    omega
  · have hnot : key ∉ keysAt xs keys := by
      intro hmem
      exact hx (by simpa using (List.mem_filter.mp hmem).2)
    rw [List.count_eq_zero.mpr hnot]
    exact Nat.zero_le 1

/-- Some choice of coordinates meets at least `n` entries, none twice, exactly when at least `n`
entries are usable. -/
theorem exists_matched_iff {n : Nat} :
    (∃ chosen : List (BitVec 256), chosen ⊆ xs ∧ (matchedKeys keys chosen).Nodup ∧
        n ≤ (matchedKeys keys chosen).length) ↔
      n ≤ (usableKeys keys xs).length := by
  constructor
  · rintro ⟨chosen, hsub, hnd, hle⟩
    obtain ⟨hdistinct, hone⟩ := nodup_matchedKeys.mp hnd
    rw [matchedKeys_eq_filter hone] at hle
    refine hle.trans ?_
    rw [usableKeys, keysAt, List.filter_filter, ← List.countP_eq_length_filter,
      ← List.countP_eq_length_filter]
    apply List.countP_mono_left
    intro key hkey hx
    rw [decide_eq_true_eq] at hx
    rw [Bool.and_eq_true, decide_eq_true_eq, decide_eq_true_eq]
    refine ⟨?_, hsub hx⟩
    -- the entries at one chosen coordinate are among those at all of them
    refine hdistinct.sublist ?_
    apply List.monotone_filter_right
    intro other hother
    have hox : other.x = key.x := by simpa using hother
    exact decide_eq_true (hox ▸ hx)
  · intro hle
    let usable := xs.filter fun x => (keys.filter fun key => key.x = x).Nodup
    have hmem : ∀ key ∈ keys, key.x ∈ usable.dedup ↔
        key.x ∈ xs ∧ (keys.filter fun other => other.x = key.x).Nodup := by
      intro key _
      simp [usable]
    have hone : ∀ key ∈ keys, usable.dedup.count key.x ≤ 1 := fun key _ =>
      List.nodup_iff_count_le_one.mp (List.nodup_dedup usable) key.x
    have heq : matchedKeys keys usable.dedup = usableKeys keys xs := by
      rw [matchedKeys_eq_filter hone, usableKeys, keysAt, List.filter_filter]
      apply List.filter_congr
      intro key hkey
      rw [← Bool.decide_and, decide_eq_decide, and_comm]
      exact hmem key hkey
    refine ⟨usable.dedup, ?_, ?_, heq ▸ hle⟩
    · intro x hx
      exact (List.mem_filter.mp (List.mem_dedup.mp hx)).1
    · refine nodup_matchedKeys.mpr ⟨nodup_keysAt ?_, hone⟩
      intro x hx
      simpa using (List.mem_filter.mp (List.mem_dedup.mp hx)).2

end Usable

/-- Elements can be chosen with given images. -/
theorem exists_map_eq {α β : Type} {f : α → β} {list : List α} {images : List β}
    (h : images ⊆ list.map f) : ∃ chosen : List α, chosen ⊆ list ∧ chosen.map f = images := by
  induction images with
  | nil => exact ⟨[], List.nil_subset _, rfl⟩
  | cons image rest ih =>
      obtain ⟨hhead, htail⟩ := List.cons_subset.mp h
      obtain ⟨a, ha, rfl⟩ := List.mem_map.mp hhead
      obtain ⟨chosen, hsub, hmap⟩ := ih htail
      exact ⟨a :: chosen, List.cons_subset.mpr ⟨ha, hsub⟩, by rw [List.map_cons, hmap]⟩

/-! ## A scheme with ideal signatures -/

/-- Keys are their own public keys, and a signature spells out what it was made for. -/
def echoCurve : Curve PublicKey where
  publicKey := id
  signSchnorr key _ digest := key.x ++ digest

def Env.echo (env : Env) : Env :=
  { env with verifySchnorr := fun x digest sig => sig = x ++ digest }

theorem echo_ideal (env : Env) : echoCurve.Ideal env.echo := by
  intro key aux digest x digest'
  have hinj : ∀ a b a' b' : BitVec 256, a ++ b = a' ++ b' ↔ a' = a ∧ b' = b := by
    intro a b a' b'
    constructor
    · intro h
      have hleft := congrArg (fun s => s.extractLsb' 256 256) h
      have hright := congrArg (fun s => s.extractLsb' 0 256) h
      simp only [BitVec.extractLsb'_append_eq_left] at hleft
      simp only [BitVec.extractLsb'_append_eq_right] at hright
      exact ⟨hleft.symm, hright.symm⟩
    · rintro ⟨rfl, rfl⟩
      rfl
  exact decide_eq_true_iff.trans (hinj key.x digest x digest')

/-- The owners of the keys. -/
def echoSigners (keys : List PublicKey) : List (Signer PublicKey) := keys.map fun key => ⟨key, 0⟩

theorem publicKey_echoSigners (keys : List PublicKey) :
    ((echoSigners keys).map fun signer => echoCurve.publicKey signer.key) = keys := by
  rw [echoSigners, List.map_map]
  exact List.map_id keys

theorem xOf_echoSigners (keys : List PublicKey) :
    (echoSigners keys).map echoCurve.xOf = keys.map PublicKey.x := by
  rw [echoSigners, List.map_map]
  rfl

theorem publicKey_mem_of_echoSigners {keys : List PublicKey} {signer : Signer PublicKey}
    (h : signer ∈ echoSigners keys) : echoCurve.publicKey signer.key ∈ keys := by
  obtain ⟨key, hkey, rfl⟩ := List.mem_map.mp h
  exact hkey

/-- The signers' `x` coordinates are those of their public keys. -/
theorem map_xOf (curve : Curve SecretKey) (signers : List (Signer SecretKey)) :
    signers.map curve.xOf =
      (signers.map fun signer => curve.publicKey signer.key).map PublicKey.x := by
  rw [List.map_map]
  rfl

end Cdk
