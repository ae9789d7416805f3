import Cdk.Nuts.Threshold

/-!
# Completeness of the P2PK check

When the owners of enough listed keys have signed a proof once each, the check
should pass whatever the order of the keys, and a proof whose locktime has
passed without refund keys should pass with any witness.

The first holds for a secret exactly when no key is listed twice, unless its
threshold exceeds the number of its keys: every valid signature of a repeated
key is a duplicate. The second never holds, since the check asks for the
signatures of the witness before it looks at the time.
-/

namespace Cdk

open Lib

/-- Each of the signers has one valid signature and the other listed keys have none. -/
def SignedOnceBy (env : Env) (msg : List UInt8) (keys signers : List PublicKey)
    (sigs : List Signature) : Prop :=
  ∀ key ∈ keys, (sigs.filter (key.verify env msg)).length = if key ∈ signers then 1 else 0

/-- At least `n` distinct listed keys have signed the proof, once each. -/
def FullySigned (env : Env) (keys : List PublicKey) (n : Nat) (proof : Proof) : Prop :=
  ∃ texts sigs signers, proof.witness.bind Witness.signatures = some texts ∧ Parsed texts sigs ∧
    signers.Nodup ∧ signers ⊆ keys ∧ n ≤ signers.length ∧
    SignedOnceBy env (utf8 proof.secret) keys signers sigs

/-- A fully signed proof passes before the locktime, and any proof passes after a locktime
without refund keys. -/
def ThresholdComplete (env : Env) (now : Nat) (key : PublicKey) (c : Conditions) (proof : Proof) :
    Prop :=
  (¬ Expired now c → FullySigned env (listedKeys key c) (c.numSigs.getD 1) proof →
    verifyP2pk env now proof = .ok ()) ∧
  (Expired now c → c.refundKeys = none → verifyP2pk env now proof = .ok ())

section Lists

variable {env : Env} {msg : List UInt8} {keys signers : List PublicKey} {sigs : List Signature}

/-- The entries met by single signatures are the entries of the signers. -/
theorem SignedOnceBy.signedKeys_eq (h : SignedOnceBy env msg keys signers sigs) :
    signedKeys env msg keys sigs = keys.filter fun key => key ∈ signers := by
  induction keys with
  | nil => rfl
  | cons key rest ih =>
      have hcons : signedKeys env msg (key :: rest) sigs =
          (sigs.filter (key.verify env msg)).map (fun _ => key) ++
            signedKeys env msg rest sigs := rfl
      have hkey := h key List.mem_cons_self
      rw [hcons, ih fun k hk => h k (List.mem_cons_of_mem _ hk), List.filter_cons]
      by_cases hmem : key ∈ signers
      · rw [if_pos hmem, List.length_eq_one_iff] at hkey
        obtain ⟨sig, hsig⟩ := hkey
        rw [hsig, if_pos (by simpa using hmem)]
        rfl
      · rw [if_neg hmem, List.length_eq_zero_iff] at hkey
        rw [hkey, if_neg (by simpa using hmem)]
        rfl

/-- Keys that are listed once let every fully signed proof pass. -/
theorem verifyThreshold_of_nodup (hne : keys ≠ []) (hnd : keys.Nodup) {texts : List String}
    {n : Nat} (hp : Parsed texts sigs) (hsigners : signers.Nodup) (hsub : signers ⊆ keys)
    (hle : n ≤ signers.length) (honce : SignedOnceBy env msg keys signers sigs) :
    verifyThreshold env msg keys texts n = .ok () := by
  have hmem : signers ⊆ keys.filter fun key => key ∈ signers := fun key hkey =>
    List.mem_filter.mpr ⟨hsub hkey, by simpa using hkey⟩
  refine (verifyThreshold_eq_ok hne).mpr ⟨sigs, hp, ?_, ?_⟩
  · rw [honce.signedKeys_eq]
    exact hnd.filter _
  · rw [honce.signedKeys_eq]
    exact hle.trans (List.subperm_of_subset hsigners hmem).length_le

/-- The proof that all listed keys have signed with one signature. -/
theorem fullySigned_accepting {n : Nat} {text : String} {key : PublicKey}
    (hle : n ≤ keys.dedup.length) :
    FullySigned (env.accepting (keys.map PublicKey.x)) keys n (singleProof text key) := by
  refine ⟨_, [0], keys.dedup, rfl, Parsed.toText [0], List.nodup_dedup keys,
    List.dedup_subset keys, hle, ?_⟩
  intro k hk
  have hx : k.x ∈ keys.map PublicKey.x := List.mem_map_of_mem hk
  rw [if_pos (List.mem_dedup.mpr hk),
    List.filter_cons_of_pos (by rw [verify_accepting]; exact decide_eq_true hx)]
  rfl

end Lists

/-- For every P2PK secret and every time: the check is complete for all witnesses and all
signature oracles exactly when, before the locktime, no key is listed twice or there are fewer
keys than the threshold, and the secret is not one whose locktime has passed without refund
keys. -/
theorem verifyP2pk_thresholdComplete_iff (env : Env) (now : Nat) (text : String) (key : PublicKey)
    (c : Conditions) (h : IsP2pk env text key c) :
    (∀ schnorr proof, proof.secret = text →
        ThresholdComplete { env with verifySchnorr := schnorr } now key c proof) ↔
      (¬ Expired now c → (listedKeys key c).Nodup ∨
        (listedKeys key c).dedup.length < c.numSigs.getD 1) ∧
      ¬ (Expired now c ∧ c.refundKeys = none) := by
  constructor
  · intro hcomplete
    constructor
    · intro hexp
      by_contra hnot
      simp only [not_or, Nat.not_lt] at hnot
      obtain ⟨hdup, hle⟩ := hnot
      -- all listed keys sign at once, and a repeated one is met twice
      let xs := (listedKeys key c).map PublicKey.x
      have h' : IsP2pk (env.accepting xs) (singleProof text key).secret key c := h
      have hok := (hcomplete _ (singleProof text key) rfl).1 hexp (fullySigned_accepting hle)
      obtain ⟨texts, htexts, hpath⟩ := (verifyP2pk_eq_ok h').mp hok
      cases htexts
      rcases hpath with ⟨hexp', -⟩ | ⟨-, hthreshold⟩
      · exact hexp hexp'
      · obtain ⟨sigs, hp, hnd, -⟩ := (verifyThreshold_eq_ok (listedKeys_ne_nil key c)).mp hthreshold
        have hsigs : sigs = [0] := by
          have hmap := hp.symm.trans (Parsed.toText [0])
          simpa using hmap
        rw [hsigs, signedKeys_singleton] at hnd
        have hall : ((listedKeys key c).filter fun k => k.verify (env.accepting xs)
            (utf8 (singleProof text key).secret) 0) = listedKeys key c := by
          apply List.filter_eq_self.mpr
          intro k hk
          rw [verify_accepting]
          exact decide_eq_true (List.mem_map_of_mem hk)
        exact hdup (hall ▸ hnd)
    · rintro ⟨hexp, hnone⟩
      let bare : Proof := ⟨Amount.one, .v1 0, text, key, none⟩
      have h' : IsP2pk env bare.secret key c := h
      have hok := (hcomplete env.verifySchnorr bare rfl).2 hexp hnone
      obtain ⟨texts, htexts, -⟩ := (verifyP2pk_eq_ok h').mp hok
      cases htexts
  · rintro ⟨hbefore, hafter⟩ schnorr proof hp
    subst hp
    have h' : IsP2pk { env with verifySchnorr := schnorr } proof.secret key c := h
    constructor
    · rintro hexp ⟨texts, sigs, signers, htexts, hparsed, hnd, hsub, hle, honce⟩
      rcases hbefore hexp with hlisted | hfew
      · refine (verifyP2pk_eq_ok h').mpr ⟨texts, htexts, .inr ⟨hexp, ?_⟩⟩
        exact verifyThreshold_of_nodup (listedKeys_ne_nil key c) hlisted hparsed hnd hsub hle honce
      · have hsub' : signers ⊆ (listedKeys key c).dedup := fun k hk => List.mem_dedup.mpr (hsub hk)
        have hlen := (List.subperm_of_subset hnd hsub').length_le
        omega
    · intro hexp hnone
      exact absurd ⟨hexp, hnone⟩ hafter

/-- After a locktime without refund keys every witness with a list of signatures passes. -/
theorem verifyP2pk_after_locktime {env : Env} {now : Nat} {proof : Proof} {key : PublicKey}
    {c : Conditions} (h : IsP2pk env proof.secret key c) (hexp : Expired now c)
    (hnone : c.refundKeys = none) :
    verifyP2pk env now proof = .ok () ↔
      ∃ texts, proof.witness.bind Witness.signatures = some texts := by
  rw [verifyP2pk_eq_ok h]
  constructor
  · rintro ⟨texts, htexts, -⟩
    exact ⟨texts, htexts⟩
  · rintro ⟨texts, htexts⟩
    exact ⟨texts, htexts, .inl ⟨hexp, .inl hnone⟩⟩

/-! ## A data key that is listed again -/

/-- A secret whose data key is repeated in the pubkeys tag. -/
def repeatedSecret : Nut10Secret :=
  ⟨.p2pk, ⟨"859d4935c4907062a6297cf4e663e2835d90d97ecdd510745d32f6816323a41f",
    "026562efcfadc8e86d44da6a8adf80633d974302e62c850774db1fb36ff4cc7198",
    some [["pubkeys", "026562efcfadc8e86d44da6a8adf80633d974302e62c850774db1fb36ff4cc7198"]]⟩⟩

def repeatedSecretText : String := "[\"P2PK\",\x7b\"nonce\":" ++
  "\"859d4935c4907062a6297cf4e663e2835d90d97ecdd510745d32f6816323a41f\"," ++
  "\"data\":\"026562efcfadc8e86d44da6a8adf80633d974302e62c850774db1fb36ff4cc7198\"," ++
  "\"tags\":[[\"pubkeys\"," ++
  "\"026562efcfadc8e86d44da6a8adf80633d974302e62c850774db1fb36ff4cc7198\"]]\x7d]"

def repeatedConditions : Conditions where
  locktime := none
  pubkeys := some [evenPoint]
  refundKeys := none
  numSigs := none
  sigFlag := .sigInputs
  numSigsRefund := none

def repeatedEnv : Env :=
  (Env.ofSecrets [(repeatedSecretText, repeatedSecret)]).accepting
    ((listedKeys evenPoint repeatedConditions).map PublicKey.x)

theorem repeated_isP2pk : IsP2pk repeatedEnv repeatedSecretText evenPoint repeatedConditions := by
  refine ⟨repeatedSecret, ?_, rfl, ?_, ?_⟩
  · simp only [repeatedEnv, Env.accepting, Env.ofSecrets, List.lookup_cons_self]
  · decide +kernel
  · decide +kernel

/-- The signature of the only key is rejected as a duplicate. -/
theorem verifyP2pk_repeated_key :
    IsP2pk repeatedEnv repeatedSecretText evenPoint repeatedConditions ∧
      verifyP2pk repeatedEnv 1700000000 (singleProof repeatedSecretText evenPoint) =
        .err .duplicateSignature ∧
      ¬ ThresholdComplete repeatedEnv 1700000000 evenPoint repeatedConditions
        (singleProof repeatedSecretText evenPoint) := by
  have hexp : ¬ Expired 1700000000 repeatedConditions := by
    rintro ⟨locktime, hl, -⟩
    cases hl
  have herr : verifyP2pk repeatedEnv 1700000000 (singleProof repeatedSecretText evenPoint) =
      .err .duplicateSignature := by
    decide +kernel
  refine ⟨repeated_isP2pk, herr, ?_⟩
  intro hcomplete
  have hok := hcomplete.1 hexp (fullySigned_accepting (by decide))
  rw [herr] at hok
  cases hok

theorem verifyP2pk_thresholdComplete_iff_at_repeated :
    (∀ schnorr proof, proof.secret = repeatedSecretText →
        ThresholdComplete { repeatedEnv with verifySchnorr := schnorr } 1700000000 evenPoint
          repeatedConditions proof) ↔
      (¬ Expired 1700000000 repeatedConditions → (listedKeys evenPoint repeatedConditions).Nodup ∨
        (listedKeys evenPoint repeatedConditions).dedup.length <
          repeatedConditions.numSigs.getD 1) ∧
      ¬ (Expired 1700000000 repeatedConditions ∧ repeatedConditions.refundKeys = none) :=
  verifyP2pk_thresholdComplete_iff repeatedEnv 1700000000 repeatedSecretText evenPoint
    repeatedConditions repeated_isP2pk

end Cdk
