import Cdk.Nuts.HtlcLock

/-!
# The two refund paths

After the locktime the refund keys may spend a P2PK proof and an HTLC proof.
The check of P2PK proofs goes through the signatures until enough distinct keys
have signed, and gives up at a text that is no signature. The check of HTLC
proofs reads all signatures, counts them like those of listed keys, which fails
for a key that is matched twice, and is content with one.
-/

namespace Cdk

open Lib

/-- The signatures before the first text that is none. -/
def parsedPrefix : List String → List Signature
  | [] => []
  | text :: rest =>
      match Signature.fromStr text with
      | none => []
      | some sig => sig :: parsedPrefix rest

instance (texts : List String) (sigs : List Signature) : Decidable (Parsed texts sigs) :=
  inferInstanceAs (Decidable (texts.map Signature.fromStr = sigs.map some))

/-- The distinct keys that some signatures are valid for. -/
def distinctSigners (env : Env) (msg : List UInt8) (keys : List PublicKey)
    (sigs : List Signature) : Finset PublicKey :=
  (signedKeys env msg keys sigs).toFinset

/-- Where all texts are signatures and no refund key is matched twice, nobody has signed or
enough keys have; otherwise too few keys sign before the first text that is no signature. -/
def RefundCountsAgree (env : Env) (msg : List UInt8) (needed : Nat) (keys : List PublicKey)
    (texts : List String) : Prop :=
  let sigs := parsedPrefix texts
  let signers := (distinctSigners env msg keys sigs).card
  if Parsed texts sigs ∧ (signedKeys env msg keys sigs).Nodup then
    signers = 0 ∨ needed ≤ signers
  else signers < max needed 1

instance (env : Env) (msg : List UInt8) (needed : Nat) (keys : List PublicKey)
    (texts : List String) : Decidable (RefundCountsAgree env msg needed keys texts) := by
  unfold RefundCountsAgree
  infer_instance

/-- The check of HTLC proofs passes only with enough distinct refund keys, and exactly when the
check of P2PK proofs passes. -/
structure RefundPathsAgree (env : Env) (now : Nat) (proof : Proof) (c : Conditions)
    (keys : List PublicKey) (w : HtlcWitness) : Prop where
  threshold : verifyHtlc env now proof = .ok () → ∃ signers : List PublicKey, signers.Nodup ∧
    c.numSigsRefund.getD 1 ≤ signers.length ∧ ∀ key ∈ signers, key ∈ keys ∧
      ∃ texts, w.signatures = some texts ∧ Signed env (utf8 proof.secret) texts key
  agree : verifyHtlc env now proof = .ok () ↔ verifyP2pk env now proof = .ok ()

theorem Parsed.eq_parsedPrefix {texts : List String} {sigs : List Signature}
    (h : Parsed texts sigs) : sigs = parsedPrefix texts := by
  induction texts generalizing sigs with
  | nil => exact List.map_eq_nil_iff.mp h.symm
  | cons text rest ih =>
      cases sigs with
      | nil => simp [Parsed] at h
      | cons sig sigs =>
          obtain ⟨hsig, hrest⟩ := List.cons.inj h
          rw [parsedPrefix, hsig]
          exact congrArg (sig :: ·) (ih hrest)

section Loops

variable {env : Env} {msg : List UInt8} {needed : Nat} {keys valid : List PublicKey}

theorem mem_distinctSigners {sigs : List Signature} {key : PublicKey} :
    key ∈ distinctSigners env msg keys sigs ↔
      key ∈ keys ∧ ∃ sig ∈ sigs, key.verify env msg sig = true := by
  rw [distinctSigners, List.mem_toFinset, mem_signedKeys]

theorem distinctSigners_cons (sig : Signature) (sigs : List Signature) :
    distinctSigners env msg keys (sig :: sigs) =
      (keys.filter fun key => key.verify env msg sig).toFinset ∪
        distinctSigners env msg keys sigs := by
  ext key
  rw [Finset.mem_union, mem_distinctSigners, mem_distinctSigners, List.mem_toFinset,
    List.mem_filter, List.exists_mem_cons_iff, and_or_left]

/-- One signature adds its refund keys to those collected, until there are enough. -/
theorem refundKeysLoop_spec (sig : Signature) (hnd : valid.Nodup)
    (hlt : valid.length < max needed 1) :
    let all := valid.toFinset ∪ (keys.filter fun key => key.verify env msg sig).toFinset
    if max needed 1 ≤ all.card then (refundKeysLoop env msg needed sig keys valid).2 = true
    else ∃ collected, refundKeysLoop env msg needed sig keys valid = (collected, false) ∧
      collected.Nodup ∧ collected.toFinset = all := by
  induction keys generalizing valid with
  | nil =>
      have hcard : valid.toFinset.card = valid.length := List.toFinset_card_of_nodup hnd
      simp only [List.filter_nil, List.toFinset_nil, Finset.union_empty, hcard]
      rw [if_neg (Nat.not_le_of_lt hlt)]
      exact ⟨valid, rfl, hnd, rfl⟩
  | cons key rest ih =>
      unfold refundKeysLoop
      rw [List.filter_cons]
      by_cases hv : key.verify env msg sig = true
      · rw [if_pos hv, if_pos hv]
        have hset : (valid.insert key).toFinset = insert key valid.toFinset := by
          ext k
          simp [List.mem_insert_iff]
        have hall : valid.toFinset ∪
            (key :: rest.filter fun key => key.verify env msg sig).toFinset =
              (valid.insert key).toFinset ∪
                (rest.filter fun key => key.verify env msg sig).toFinset := by
          rw [hset, Finset.insert_union, ← Finset.union_insert, ← List.toFinset_cons]
        have hcard : (valid.insert key).toFinset.card = (valid.insert key).length :=
          List.toFinset_card_of_nodup hnd.insert
        have hpos : 0 < (valid.insert key).length := List.length_pos_of_mem List.mem_insert_self
        dsimp only
        rw [hall]
        by_cases hle : needed ≤ (valid.insert key).length
        · have hmany : max needed 1 ≤ ((valid.insert key).toFinset ∪
              (rest.filter fun key => key.verify env msg sig).toFinset).card := by
            apply le_trans _ (Finset.card_le_card Finset.subset_union_left)
            omega
          rw [if_pos hmany, if_pos hle]
        · rw [if_neg hle]
          exact ih hnd.insert (by omega)
      · rw [if_neg hv, if_neg hv]
        exact ih hnd hlt

/-- The loop over the signatures succeeds exactly with enough distinct keys, and at least one,
before the first text that is no signature. -/
theorem refundLoop_eq_ok_iff {texts : List String} (hnd : valid.Nodup)
    (hlt : valid.length < max needed 1) :
    refundLoop env msg needed keys texts valid = .ok () ↔
      max needed 1 ≤
        (valid.toFinset ∪ distinctSigners env msg keys (parsedPrefix texts)).card := by
  induction texts generalizing valid with
  | nil =>
      have hcard : valid.toFinset.card = valid.length := List.toFinset_card_of_nodup hnd
      have hnone : distinctSigners env msg keys (parsedPrefix []) = ∅ := by
        ext key
        simp [mem_distinctSigners, parsedPrefix]
      rw [hnone, Finset.union_empty, hcard]
      exact iff_of_false (by simp [refundLoop]) (Nat.not_le_of_lt hlt)
  | cons text rest ih =>
      unfold refundLoop parsedPrefix
      cases hsig : Signature.fromStr text with
      | none =>
          have hcard : valid.toFinset.card = valid.length := List.toFinset_card_of_nodup hnd
          have hnone : distinctSigners env msg keys [] = ∅ := by
            ext key
            simp [mem_distinctSigners]
          dsimp only
          rw [hnone, Finset.union_empty, hcard]
          exact iff_of_false (by simp) (Nat.not_le_of_lt hlt)
      | some sig =>
          have hstep := @refundKeysLoop_spec env msg needed keys valid sig hnd hlt
          dsimp only at hstep ⊢
          rw [distinctSigners_cons, ← Finset.union_assoc]
          split at hstep
          next hle =>
            have hmany : max needed 1 ≤ (valid.toFinset ∪
                (keys.filter fun key => key.verify env msg sig).toFinset ∪
                  distinctSigners env msg keys (parsedPrefix rest)).card :=
              hle.trans (Finset.card_le_card Finset.subset_union_left)
            refine iff_of_true ?_ hmany
            split
            next => rfl
            next v heq =>
              rw [heq] at hstep
              cases hstep
          next hnot =>
            obtain ⟨collected, heq, hcollected, hset⟩ := hstep
            have hcard : collected.toFinset.card = collected.length :=
              List.toFinset_card_of_nodup hcollected
            rw [heq, ← hset]
            dsimp only
            apply ih hcollected
            rw [← hcard, hset]
            exact Nat.lt_of_not_le hnot

end Loops

section Paths

variable {env : Env} {now : Nat} {proof : Proof} {secret : Nut10Secret} {c : Conditions}
  {locktime : Nat} {keys : List PublicKey} {w : HtlcWitness}

/-- After the locktime the check of P2PK proofs goes through the refund keys. -/
theorem verifyP2pk_refund (hs : env.parseSecret proof.secret = some secret)
    (hc : Conditions.ofSecret env secret = .ok (some c)) (hl : c.locktime = some locktime)
    (hpast : locktime ≤ now) (hr : c.refundKeys = some keys) :
    verifyP2pk env now proof = .ok () ↔
      ∃ texts, proof.witness.bind Witness.signatures = some texts ∧
      refundLoop env (utf8 proof.secret) (c.numSigsRefund.getD 1) keys texts [] = .ok () := by
  have htags : Conditions.tryFrom env (secret.secretData.tags.getD []) = .ok c :=
    tryFrom_of_ofSecret hc
  have hfilter : c.locktime.filter (fun locktime => locktime ≤ now) = some locktime := by
    simp [hl, hpast]
  simp only [verifyP2pk, hs, htags, hfilter, hr, Outcome.ofOption_some, Outcome.bind_ok,
    Outcome.bind_eq_ok, Outcome.ofOption_eq_ok]

/-- Without the preimage the check of HTLC proofs passes only through the locktime block. -/
theorem verifyHtlc_refund (hs : env.parseSecret proof.secret = some secret)
    (hc : Conditions.ofSecret env secret = .ok (some c)) (hl : c.locktime = some locktime)
    (hr : c.refundKeys = some keys) (hw : proof.witness = some (.htlc w))
    (hpre : ¬ PreimageKnown env secret w) :
    verifyHtlc env now proof = .ok () ↔ ∃ texts, w.signatures = some texts ∧
      Parsed texts (parsedPrefix texts) ∧
      (signedKeys env (utf8 proof.secret) keys (parsedPrefix texts)).Nodup ∧
      (distinctSigners env (utf8 proof.secret) keys (parsedPrefix texts)).card ≠ 0 := by
  have hchecked : c.checkedRefundKeys = some keys := by
    rw [Conditions.checkedRefundKeys, hl, Option.bind_some, hr]
  have hunlock := (locktimeUnlocks_checked env now (utf8 proof.secret) hchecked w).1
  have hcard : ∀ sigs, (distinctSigners env (utf8 proof.secret) keys sigs).card ≠ 0 ↔
      signedKeys env (utf8 proof.secret) keys sigs ≠ [] := by
    intro sigs
    rw [distinctSigners, Ne, Finset.card_eq_zero, List.toFinset_eq_empty_iff]
  rw [verifyHtlc_eq_ok hs hc]
  constructor
  · rintro ⟨w', hw', h⟩
    rw [hw] at hw'
    cases hw'
    rcases h with ⟨_, ⟨⟩, hok⟩ | ⟨hmatch, -⟩
    · obtain ⟨sigs, hsigs, hnd, hne⟩ := hunlock.mp hok
      cases htexts : w.signatures with
      | none =>
          rw [htexts] at hsigs
          cases hsigs
      | some texts =>
          rw [htexts] at hsigs
          have hparsed := parseSignatures_some.mp hsigs
          have heq := hparsed.eq_parsedPrefix
          subst heq
          exact ⟨texts, rfl, hparsed, hnd, (hcard _).mpr hne⟩
    · exact absurd (preimageMatches_eq_ok hmatch) hpre
  · rintro ⟨texts, htexts, hparsed, hnd, hne⟩
    refine ⟨w, hw, .inl ⟨c, rfl, hunlock.mpr ⟨_, ?_, hnd, (hcard _).mp hne⟩⟩⟩
    rw [htexts]
    exact parseSignatures_some.mpr hparsed

end Paths

/-- For every proof with a locktime in the past and refund keys, and every witness without the
preimage: the two refund paths agree exactly if the signatures count the same in both. -/
theorem refundPathsAgree_iff (env : Env) (now : Nat) (proof : Proof) (secret : Nut10Secret)
    (c : Conditions) (locktime : Nat) (keys : List PublicKey) (w : HtlcWitness)
    (hs : env.parseSecret proof.secret = some secret)
    (hc : Conditions.ofSecret env secret = .ok (some c)) (hl : c.locktime = some locktime)
    (hpast : locktime < now) (hr : c.refundKeys = some keys)
    (hw : proof.witness = some (.htlc w)) (hpre : ¬ PreimageKnown env secret w) :
    RefundPathsAgree env now proof c keys w ↔ ∀ texts, w.signatures = some texts →
      RefundCountsAgree env (utf8 proof.secret) (c.numSigsRefund.getD 1) keys texts := by
  have hhtlc : verifyHtlc env now proof = .ok () ↔ _ := verifyHtlc_refund hs hc hl hr hw hpre
  have hp2pk := verifyP2pk_refund hs hc hl (Nat.le_of_lt hpast) hr
  have hsignatures : proof.witness.bind Witness.signatures = w.signatures := by
    rw [hw]
    rfl
  have hloop : ∀ texts, refundLoop env (utf8 proof.secret) (c.numSigsRefund.getD 1) keys texts [] =
        .ok () ↔ max (c.numSigsRefund.getD 1) 1 ≤
          (distinctSigners env (utf8 proof.secret) keys (parsedPrefix texts)).card := by
    intro texts
    rw [refundLoop_eq_ok_iff List.nodup_nil (by simp), List.toFinset_nil, Finset.empty_union]
  simp only [hsignatures, hloop] at hp2pk
  have hagree : (verifyHtlc env now proof = .ok () ↔ verifyP2pk env now proof = .ok ()) ↔
      ∀ texts, w.signatures = some texts →
        RefundCountsAgree env (utf8 proof.secret) (c.numSigsRefund.getD 1) keys texts := by
    rw [hhtlc, hp2pk]
    cases w.signatures with
    | none => simp
    | some texts =>
        simp only [Option.some.injEq, exists_eq_left', forall_eq', RefundCountsAgree]
        split
        next hboth =>
          simp only [hboth.1, hboth.2, true_and]
          omega
        next hnot =>
          rw [← and_assoc]
          simp only [hnot, false_and, false_iff, Nat.not_le]
  rw [← hagree]
  constructor
  · exact RefundPathsAgree.agree
  · intro h
    refine ⟨?_, h⟩
    intro hok
    obtain ⟨texts, htexts, hcard⟩ := hp2pk.mp (h.mp hok)
    obtain ⟨signers, hcollected, hle⟩ :=
      refundLoop_ok (List.Subset.refl texts) ⟨List.nodup_nil, by simp⟩ ((hloop texts).mpr hcard)
    refine ⟨signers, hcollected.1, hle, ?_⟩
    intro key hkey
    obtain ⟨hmem, hsigned⟩ := hcollected.2 key hkey
    exact ⟨hmem, texts, htexts, hsigned⟩

/-! ## One signature where two are needed -/

def secondRefundKey : PublicKey :=
  ⟨false, 0x79be667ef9dcbbac55a06295ce870b07029bfcdb2dce28d959f2815b16f81798⟩

/-- The example secret with a second refund key, both of which must sign. -/
def pairSecret : Nut10Secret :=
  ⟨.htlc, ⟨"7a9128b3f9612549f9278958337a5d7f",
    "5c23fc3aec9d985bd5fc88ca8bceaccc52cf892715dd94b42b84f1b43350751e",
    some [["locktime", "2000000000"],
      ["refund", "026562efcfadc8e86d44da6a8adf80633d974302e62c850774db1fb36ff4cc7198",
        "0279be667ef9dcbbac55a06295ce870b07029bfcdb2dce28d959f2815b16f81798"],
      ["n_sigs_refund", "2"]]⟩⟩

def pairSecretText : String := "[\"HTLC\",\x7b\"nonce\":\"7a9128b3f9612549f9278958337a5d7f\"," ++
  "\"data\":\"5c23fc3aec9d985bd5fc88ca8bceaccc52cf892715dd94b42b84f1b43350751e\"," ++
  "\"tags\":[[\"locktime\",\"2000000000\"],[\"refund\"," ++
  "\"026562efcfadc8e86d44da6a8adf80633d974302e62c850774db1fb36ff4cc7198\"," ++
  "\"0279be667ef9dcbbac55a06295ce870b07029bfcdb2dce28d959f2815b16f81798\"]," ++
  "[\"n_sigs_refund\",\"2\"]]\x7d]"

def pairConditions : Conditions :=
  { refundConditions with
    refundKeys := some [refundKey, secondRefundKey]
    numSigsRefund := some 2 }

def oneSignature : String := String.ofList (List.replicate 127 '0' ++ ['1'])

/-- Each of the refund keys has a signature. -/
def pairEnv : Env :=
  { refundEnv with
    verifySchnorr := fun x _ sig =>
      (x = refundKey.x ∧ sig = 0) ∨ (x = secondRefundKey.x ∧ sig = 1)
    parseSecret := fun text => if text = pairSecretText then some pairSecret else none
    parsePublicKey := fun text =>
      if text = "0279be667ef9dcbbac55a06295ce870b07029bfcdb2dce28d959f2815b16f81798" then
        some secondRefundKey
      else refundEnv.parsePublicKey text }

def pairProof (signatures : List String) : Proof :=
  ⟨Amount.one, .v1 0, pairSecretText, refundKey, some (.htlc ⟨"", some signatures⟩)⟩

theorem pairEnv_parseSecret : pairEnv.parseSecret pairSecretText = some pairSecret := by
  simp only [pairEnv, if_true]

theorem pairSecret_conditions :
    Conditions.ofSecret pairEnv pairSecret = .ok (some pairConditions) := by
  decide +kernel

theorem pairSecret_preimage (signatures : Option (List String)) :
    ¬ PreimageKnown pairEnv pairSecret ⟨"", signatures⟩ := by
  have hdata : parseSha256 pairSecret.secretData.data ≠ some 0 := by decide +kernel
  exact hdata

/-- The signatures of both refund keys spend the proof in both ways. -/
theorem refundPathsAgree_iff_pairProof :
    verifyHtlc pairEnv 2100000000 (pairProof [zeroSignature, oneSignature]) = .ok () ∧
      RefundPathsAgree pairEnv 2100000000 (pairProof [zeroSignature, oneSignature]) pairConditions
        [refundKey, secondRefundKey] ⟨"", some [zeroSignature, oneSignature]⟩ := by
  refine ⟨by decide +kernel, (refundPathsAgree_iff pairEnv 2100000000
    (pairProof [zeroSignature, oneSignature]) pairSecret pairConditions 2000000000
    [refundKey, secondRefundKey] ⟨"", some [zeroSignature, oneSignature]⟩ pairEnv_parseSecret
    pairSecret_conditions rfl (by decide) rfl rfl (pairSecret_preimage _)).mpr ?_⟩
  rintro _ ⟨⟩
  decide +kernel

/-- One of two refund keys spends the HTLC proof, and the check of P2PK proofs rejects it. -/
theorem verifyHtlc_one_refund_of_two :
    pairEnv.parseSecret (pairProof [zeroSignature]).secret = some pairSecret ∧
      Conditions.ofSecret pairEnv pairSecret = .ok (some pairConditions) ∧
      ¬ PreimageKnown pairEnv pairSecret ⟨"", some [zeroSignature]⟩ ∧
      verifyHtlc pairEnv 2100000000 (pairProof [zeroSignature]) = .ok () ∧
      verifyP2pk pairEnv 2100000000 (pairProof [zeroSignature]) = .err .spendConditionsNotMet ∧
      ¬ RefundPathsAgree pairEnv 2100000000 (pairProof [zeroSignature]) pairConditions
        [refundKey, secondRefundKey] ⟨"", some [zeroSignature]⟩ := by
  have hhtlc : verifyHtlc pairEnv 2100000000 (pairProof [zeroSignature]) = .ok () := by
    decide +kernel
  have hp2pk : verifyP2pk pairEnv 2100000000 (pairProof [zeroSignature]) =
      .err .spendConditionsNotMet := by
    decide +kernel
  refine ⟨pairEnv_parseSecret, pairSecret_conditions, pairSecret_preimage _, hhtlc, hp2pk, ?_⟩
  intro hagree
  have hok := hagree.agree.mp hhtlc
  rw [hp2pk] at hok
  cases hok

end Cdk
