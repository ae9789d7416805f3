import Cdk.Wallet.VerifyToken

/-!
# What an accepted token is worth

For every proof of a token that a wallet accepts offline, this module says
exactly when the mint's checks keep it for the holders of the expected keys.

The mint counts listed entries. A signature of a private key meets every entry
with its `x` coordinate, and a repeated entry makes it useless. What a set of
keys reaches is therefore the number of entries at `x` coordinates of the set
where no entry is repeated.
-/

namespace Cdk

open Lib

variable {SecretKey : Type}

/-! ## Safety -/

namespace SpendingConditions

/-- The number of signatures that is expected. -/
def needed (expected : SpendingConditions) : Nat := expected.numSigs.getD 1

/-- The time lies before the expected locktime. -/
def Before (expected : SpendingConditions) (now : Nat) : Prop :=
  ∀ locktime, expected.locktime = some locktime → now < locktime

end SpendingConditions

/-- The environment with another signature oracle and another hash function. -/
def Env.oracle (env : Env) (schnorr : BitVec 256 → BitVec 256 → Signature → Bool)
    (sha256 : List UInt8 → BitVec 256) : Env :=
  { env with verifySchnorr := schnorr, sha256 := sha256 }

/-- Before the locktime no witness passes without signatures of enough expected keys. -/
def NotReclaimable (env : Env) (expected : SpendingConditions) (text : String) : Prop :=
  ∀ schnorr sha256 now (proof : Proof), proof.secret = text → expected.Before now →
    verifySpendingConditions (env.oracle schnorr sha256) now proof = .ok () →
      ∃ signers : List PublicKey, signers.Nodup ∧ expected.needed ≤ signers.length ∧
        ∀ key ∈ signers, key ∈ expected.expectedKeys ∧
          Signed (env.oracle schnorr sha256) (utf8 text) proof.signatureTexts key

/-- The texts of signatures on a secret. -/
def textsOn (env : Env) (curve : Curve SecretKey) (text : String)
    (signers : List (Signer SecretKey)) : List String :=
  (signaturesOn env curve text signers).map Signature.toText

/-- Before the locktime the holder of enough expected keys, and of the preimage when a hash is
expected, can build a witness of one of the two kinds that passes. -/
def Redeemable (env : Env) (expected : SpendingConditions) (text : String) : Prop :=
  ∀ schnorr sha256 now (SecretKey : Type) (curve : Curve SecretKey) (holders : List SecretKey)
      (preimage : String), expected.Before now → curve.Ideal (env.oracle schnorr sha256) →
    (holders.map curve.publicKey).Nodup →
    (∀ holder ∈ holders, curve.publicKey holder ∈ expected.expectedKeys) →
    expected.needed ≤ holders.length →
    (∀ hash conditions, expected = .htlc hash conditions → sha256 (utf8 preimage) = hash) →
      ∃ (signers : List (Signer SecretKey)) (known : String) (witness : Witness),
        (∀ signer ∈ signers, signer.key ∈ holders) ∧
        (∀ hash conditions, expected = .htlc hash conditions → known = preimage) ∧
        (witness = .p2pk ⟨textsOn (env.oracle schnorr sha256) curve text signers⟩ ∨
          witness = .htlc ⟨known, some (textsOn (env.oracle schnorr sha256) curve text signers)⟩) ∧
        ∀ proof : Proof, proof.secret = text → proof.witness = some witness →
          verifySpendingConditions (env.oracle schnorr sha256) now proof = .ok ()

/-! ## The condition -/

/-- The locktime of a proof without refund keys passes before the expected one, which opens the
proof to everybody. -/
def OpensEarly (delay : Nat) (expected : SpendingConditions) (c : Conditions) : Prop :=
  ∃ locktime, c.locktime = some locktime ∧ c.refundKeys = none ∧
    expected.Before (locktime + delay)

/-- Any expected keys that are enough reach the threshold. -/
def KeysSuffice (expected : SpendingConditions) (keys : List PublicKey) : Prop :=
  ∀ held : List PublicKey, held.Nodup → held ⊆ expected.expectedKeys →
    expected.needed ≤ held.length →
      expected.needed ≤ (usableKeys keys (held.map PublicKey.x)).length

/-- A usable refund key of an HTLC, which is checked before the locktime already, carries enough
expected keys. -/
def RefundCovered (expected : SpendingConditions) (c : Conditions) : Prop :=
  ∀ refundKeys, c.checkedRefundKeys = some refundKeys →
    ∀ key ∈ refundKeys, (refundKeys.filter fun other => other.x = key.x).Nodup →
      expected.needed ≤ (keysAt [key.x] expected.expectedKeys).dedup.length

/-- Any expected keys that are enough hold a usable refund key, or the hash is the expected one
and they reach the threshold without a signature of a refund key. -/
def HtlcReaches (expected : SpendingConditions) (hash : BitVec 256) (c : Conditions) : Prop :=
  ∀ held : List PublicKey, held.Nodup → held ⊆ expected.expectedKeys →
    expected.needed ≤ held.length →
      (∃ refundKeys, c.checkedRefundKeys = some refundKeys ∧
        usableKeys refundKeys (held.map PublicKey.x) ≠ []) ∨
      ((∃ conditions, expected = .htlc hash conditions) ∧
        ∀ keys, c.pubkeys = some keys → expected.needed ≤
          (usableKeys keys ((held.map PublicKey.x).filter fun x =>
            (keysAt [x] (c.checkedRefundKeys.getD [])).isEmpty)).length)

/-- The condition under which an accepted proof is safe. -/
def SafeToAccept (expected : SpendingConditions) : SpendingConditions → Prop
  | .p2pk key conditions =>
      expected.locktime = some 0 ∨
        ((expected.needed = 0 ∨ ¬ OpensEarly 0 expected (effective conditions)) ∧
          KeysSuffice expected (listedKeys key (effective conditions)))
  | .htlc hash conditions =>
      expected.locktime = some 0 ∨
        ((expected.needed = 0 ∨
            (¬ OpensEarly 1 expected (effective conditions) ∧
              RefundCovered expected (effective conditions) ∧
              (effective conditions).pubkeys ≠ none)) ∧
          HtlcReaches expected hash (effective conditions))

/-! ## P2PK proofs -/

section P2pk

variable {env : Env} {expected : SpendingConditions} {text : String} {key : PublicKey}
variable {conditions : Option Conditions}

theorem isP2pk_of_tryFrom (h : SpendingConditions.tryFrom env text = .ok (.p2pk key conditions)) :
    IsP2pk env text key (effective conditions) := by
  simp only [SpendingConditions.tryFrom, Outcome.bind_eq_ok, Outcome.ofOption_eq_ok] at h
  obtain ⟨secret, hs, h⟩ := h
  cases hkind : secret.kind with
  | htlc =>
      simp only [hkind, Outcome.bind_eq_ok, Outcome.ok.injEq, reduceCtorEq, and_false,
        exists_false] at h
  | p2pk =>
      simp only [hkind, Outcome.bind_eq_ok, Outcome.ofOption_eq_ok, Outcome.ok.injEq,
        SpendingConditions.p2pk.injEq] at h
      obtain ⟨data, hdata, tags, htags, rfl, rfl⟩ := h
      exact ⟨secret, hs, hkind, hdata, tryFrom_of_ofSecret htags⟩

theorem Accepted.needed_eq {spending : SpendingConditions} (accepted : Accepted expected spending) :
    (effective spending.conditions).numSigs.getD 1 = expected.needed := by
  rw [effective_numSigs]
  exact congrArg (fun numSigs => numSigs.getD 1) accepted.numSigs

/-- Before the expected locktime an accepted proof with refund keys has not expired. -/
theorem Accepted.refundKeys_of_expired {spending : SpendingConditions} {now : Nat}
    (accepted : Accepted expected spending) (hbefore : expected.Before now)
    (hexp : Expired now (effective spending.conditions)) :
    (effective spending.conditions).refundKeys = none := by
  obtain ⟨locktime, hl, hnow⟩ := hexp
  rw [effective_locktime] at hl
  rw [effective_refundKeys]
  cases hr : spending.conditions.bind Conditions.refundKeys with
  | none => rfl
  | some keys =>
      obtain ⟨early, late, hearly, hlate, hle⟩ := accepted.locktime keys hr
      have hsame : locktime = late := Option.some.inj (hl.symm.trans hlate)
      have := hbefore early hearly
      omega

theorem mem_expected_of_listed (accepted : Accepted expected (.p2pk key conditions))
    {k : PublicKey} (hk : k ∈ listedKeys key (effective conditions)) :
    k ∈ expected.expectedKeys := by
  apply accepted.keys
  rw [listedKeys, effective_pubkeys] at hk
  simpa [SpendingConditions.pubkeys, or_comm] using hk

/-- Nothing is signed when the oracle refuses every signature. -/
theorem not_signed_of_refused {sha256 : List UInt8 → BitVec 256} {msg : List UInt8}
    {texts : List String} {k : PublicKey} :
    ¬ Signed (env.oracle (fun _ _ _ => false) sha256) msg texts k := by
  rintro ⟨_, -, _, -, hv⟩
  cases hv

theorem no_signers_of_refused {sha256 : List UInt8 → BitVec 256} {msg : List UInt8}
    {texts : List String} {signers : List PublicKey}
    (h : ∀ key ∈ signers, key ∈ expected.expectedKeys ∧
      Signed (env.oracle (fun _ _ _ => false) sha256) msg texts key) : signers.length = 0 := by
  cases signers with
  | nil => rfl
  | cons k rest => exact absurd (h k List.mem_cons_self).2 not_signed_of_refused

/-- Before the locktime a P2PK proof is kept exactly when it does not open early. -/
theorem p2pk_notReclaimable_iff
    (hps : SpendingConditions.tryFrom env text = .ok (.p2pk key conditions))
    (accepted : Accepted expected (.p2pk key conditions)) :
    NotReclaimable env expected text ↔
      expected.needed = 0 ∨ ¬ OpensEarly 0 expected (effective conditions) := by
  have hp2pk := isP2pk_of_tryFrom hps
  constructor
  · intro h
    by_contra hnot
    rw [not_or, not_not] at hnot
    obtain ⟨hpos, locktime, hl, hr, hbefore⟩ := hnot
    let proof : Proof := ⟨Amount.one, .v1 0, text, key, some (.p2pk ⟨[]⟩)⟩
    have hp2pk' : IsP2pk (env.oracle (fun _ _ _ => false) env.sha256) proof.secret key
        (effective conditions) := hp2pk
    have hok : verifyP2pk (env.oracle (fun _ _ _ => false) env.sha256) locktime proof = .ok () :=
      (verifyP2pk_eq_ok hp2pk').mpr ⟨[], rfl, .inl ⟨⟨locktime, hl, le_rfl⟩, .inl hr⟩⟩
    obtain ⟨signers, -, hle, hsigned⟩ := h _ _ locktime proof rfl hbefore
      ((verifySpendingConditions_eq_ok hp2pk').mpr hok)
    exact hpos (Nat.le_zero.mp (no_signers_of_refused hsigned ▸ hle))
  · rintro h schnorr sha256 now proof rfl hbefore hok
    rcases h with hzero | hlate
    · exact ⟨[], List.nodup_nil, by rw [hzero]; exact Nat.zero_le _, by simp⟩
    · have hp2pk' : IsP2pk (env.oracle schnorr sha256) proof.secret key (effective conditions) :=
        hp2pk
      have hexp : ¬ Expired now (effective conditions) := by
        intro hexp
        have hr := accepted.refundKeys_of_expired hbefore hexp
        obtain ⟨locktime, hl, hle⟩ := hexp
        apply hlate
        refine ⟨locktime, hl, hr, ?_⟩
        intro early hearly
        have := hbefore early hearly
        omega
      obtain ⟨texts, sigs, htexts, hsigs, hnd, hle⟩ :=
        (verifyP2pk_before hp2pk' hexp).mp ((verifySpendingConditions_eq_ok hp2pk').mp hok)
      refine ⟨_, hnd, accepted.needed_eq ▸ hle, ?_⟩
      intro k hk
      obtain ⟨hmem, hsig⟩ := mem_signedKeys.mp hk
      refine ⟨mem_expected_of_listed accepted hmem, ?_⟩
      rw [Proof.signatureTexts, htexts, Option.getD_some]
      exact hsigs.signed.mpr hsig

/-- The check of a P2PK proof with signatures of the signers. -/
theorem verifyP2pk_textsOn {curve : Curve SecretKey} (ideal : curve.Ideal env) {now : Nat}
    {proof : Proof} {c : Conditions} (h : IsP2pk env proof.secret key c) (hexp : ¬ Expired now c)
    {signers : List (Signer SecretKey)}
    (hw : proof.witness.bind Witness.signatures =
      some (textsOn env curve proof.secret signers)) :
    verifyP2pk env now proof = .ok () ↔
      (matchedKeys (listedKeys key c) (signers.map curve.xOf)).Nodup ∧
        c.numSigs.getD 1 ≤ (matchedKeys (listedKeys key c) (signers.map curve.xOf)).length := by
  have hsigned : signedKeys env (utf8 proof.secret) (listedKeys key c)
      (signaturesOn env curve proof.secret signers) =
        matchedKeys (listedKeys key c) (signers.map curve.xOf) := signedKeys_sign ideal rfl _ _
  rw [verifyP2pk_before h hexp, hw, textsOn, exists_parsed_iff, hsigned]

/-- Signers can be chosen among the holders with given `x` coordinates. -/
theorem exists_signers {curve : Curve SecretKey} {holders : List SecretKey}
    {chosen : List (BitVec 256)}
    (h : chosen ⊆ (holders.map curve.publicKey).map PublicKey.x) :
    ∃ signers : List (Signer SecretKey), (∀ signer ∈ signers, signer.key ∈ holders) ∧
      signers.map curve.xOf = chosen := by
  rw [List.map_map] at h
  obtain ⟨keys, hsub, rfl⟩ := exists_map_eq h
  refine ⟨keys.map fun key => ⟨key, 0⟩, ?_, ?_⟩
  · intro signer hsigner
    obtain ⟨key, hkey, rfl⟩ := List.mem_map.mp hsigner
    exact hsub hkey
  · rw [List.map_map]
    rfl

theorem xOf_subset {curve : Curve SecretKey} {holders : List SecretKey}
    {signers : List (Signer SecretKey)} (h : ∀ signer ∈ signers, signer.key ∈ holders) :
    signers.map curve.xOf ⊆ (holders.map curve.publicKey).map PublicKey.x := by
  intro x hx
  obtain ⟨signer, hsigner, rfl⟩ := List.mem_map.mp hx
  exact List.mem_map_of_mem (List.mem_map_of_mem (h signer hsigner))

/-- A hash function that maps every text to the expected hash, and where none is expected to
something else than a given hash. -/
def knownHash (expected : SpendingConditions) (other : BitVec 256) (_ : List UInt8) : BitVec 256 :=
  match expected with
  | .htlc hash _ => hash
  | .p2pk _ _ => other + 1

theorem knownHash_eq (other : BitVec 256) (bytes : List UInt8) :
    ∀ hash conditions, expected = .htlc hash conditions →
      knownHash expected other bytes = hash := by
  rintro hash conditions rfl
  rfl

/-- At the beginning of time every expected locktime but 0 lies ahead. -/
theorem before_zero (h : expected.locktime ≠ some 0) : expected.Before 0 := by
  intro locktime hl
  apply Nat.pos_of_ne_zero
  rintro rfl
  exact h hl

/-- What a redeemable proof gives to the holder of some expected keys, where a signature spells
out what it was made for and time begins. -/
theorem Redeemable.at_zero (h : Redeemable env expected text) (hlock : expected.locktime ≠ some 0)
    (other : BitVec 256) {held : List PublicKey} (hnd : held.Nodup)
    (hsub : held ⊆ expected.expectedKeys) (hle : expected.needed ≤ held.length) :
    let env' := ({ env with sha256 := knownHash expected other } : Env).echo
    ∃ (signers : List (Signer PublicKey)) (known : String) (proof : Proof),
      signers.map echoCurve.xOf ⊆ held.map PublicKey.x ∧ proof.secret = text ∧
      (proof.witness = some (.p2pk ⟨textsOn env' echoCurve text signers⟩) ∨
        proof.witness = some (.htlc ⟨known, some (textsOn env' echoCurve text signers)⟩)) ∧
      verifySpendingConditions env' 0 proof = .ok () := by
  intro env'
  have hholders : held.map echoCurve.publicKey = held := List.map_id held
  obtain ⟨signers, known, witness, hsigners, -, hwitness, hok⟩ :=
    h env'.verifySchnorr (knownHash expected other) 0 PublicKey echoCurve held ""
      (before_zero hlock) (echo_ideal { env with sha256 := knownHash expected other })
      (by rwa [hholders])
      (fun holder hholder => hsub hholder) hle (knownHash_eq other _)
  have hxs : signers.map echoCurve.xOf ⊆ _ := xOf_subset hsigners
  rw [hholders] at hxs
  refine ⟨signers, known, ⟨Amount.one, .v1 0, text, evenPoint, some witness⟩, hxs, rfl, ?_,
    hok _ rfl rfl⟩
  rcases hwitness with rfl | rfl
  · exact .inl rfl
  · exact .inr rfl

/-- A P2PK proof that does not open early is redeemed exactly when the expected keys reach its
threshold. -/
theorem p2pk_redeemable_iff
    (hps : SpendingConditions.tryFrom env text = .ok (.p2pk key conditions))
    (accepted : Accepted expected (.p2pk key conditions)) (hlock : expected.locktime ≠ some 0)
    (hkept : expected.needed = 0 ∨ ¬ OpensEarly 0 expected (effective conditions)) :
    Redeemable env expected text ↔
      KeysSuffice expected (listedKeys key (effective conditions)) := by
  have hp2pk := isP2pk_of_tryFrom hps
  have hneeded : (effective conditions).numSigs.getD 1 = expected.needed := accepted.needed_eq
  constructor
  · intro h held hnd hsub hle
    obtain ⟨signers, known, proof, hxs, rfl, hwitness, hok⟩ :=
      h.at_zero hlock 0 hnd hsub hle
    have hp2pk' : IsP2pk ({ env with sha256 := knownHash expected 0 } : Env).echo proof.secret key
        (effective conditions) := hp2pk
    rw [verifySpendingConditions_eq_ok hp2pk'] at hok
    rcases hkept with hzero | hlate
    · rw [hzero]
      exact Nat.zero_le _
    have hexp : ¬ Expired 0 (effective conditions) := by
      intro hexp
      have hr := accepted.refundKeys_of_expired (before_zero hlock) hexp
      obtain ⟨locktime, hl, hzero⟩ := hexp
      obtain rfl : locktime = 0 := Nat.le_zero.mp hzero
      exact hlate ⟨0, hl, hr, before_zero hlock⟩
    have hw : proof.witness.bind Witness.signatures = some
        (textsOn ({ env with sha256 := knownHash expected 0 } : Env).echo echoCurve proof.secret
          signers) := by
      rcases hwitness with hw | hw <;> rw [hw] <;> rfl
    rw [verifyP2pk_textsOn (echo_ideal _) hp2pk' hexp hw, hneeded] at hok
    exact exists_matched_iff.mp ⟨_, hxs, hok⟩
  · intro hreach schnorr sha256 now SecretKey curve holders preimage hbefore ideal hnd hsub hle _
    have hp2pk' : IsP2pk (env.oracle schnorr sha256) text key (effective conditions) := hp2pk
    have hheld : holders.map curve.publicKey ⊆ expected.expectedKeys := by
      intro k hk
      obtain ⟨holder, hholder, rfl⟩ := List.mem_map.mp hk
      exact hsub holder hholder
    obtain ⟨chosen, hchosen, hmatched⟩ := exists_matched_iff.mpr
      (hreach _ hnd hheld (by rwa [List.length_map]))
    obtain ⟨signers, hsigners, rfl⟩ := exists_signers hchosen
    refine ⟨signers, preimage, _, hsigners, fun _ _ _ => rfl, .inl rfl, ?_⟩
    rintro proof rfl hw
    rw [verifySpendingConditions_eq_ok hp2pk']
    by_cases hexp : Expired now (effective conditions)
    · refine (verifyP2pk_eq_ok hp2pk').mpr ⟨_, by rw [hw]; rfl, .inl ⟨hexp, .inl ?_⟩⟩
      exact accepted.refundKeys_of_expired hbefore hexp
    · rw [verifyP2pk_textsOn ideal hp2pk' hexp (by rw [hw]; rfl), hneeded]
      exact hmatched

end P2pk

/-! ## HTLC proofs -/

section Htlc

variable {env : Env} {now : Nat} {text : String} {hash : BitVec 256} {c : Conditions}

/-- The mint's check of an HTLC proof. -/
theorem verifySpendingConditions_htlc {proof : Proof} (h : IsHtlc env proof.secret hash c) :
    verifySpendingConditions env now proof = .ok () ↔ verifyHtlc env now proof = .ok () := by
  obtain ⟨secret, _, hs, hkind, -⟩ := h
  simp only [verifySpendingConditions, hs, hkind, Outcome.mapErr_eq_ok]

/-- A proof with an HTLC witness. -/
def htlcProof (text : String) (witness : HtlcWitness) : Proof :=
  ⟨Amount.one, .v1 0, text, evenPoint, some (.htlc witness)⟩

theorem signatureTexts_of_htlc {proof : Proof} {witness : HtlcWitness} {texts : List String}
    (hw : proof.witness = some (.htlc witness)) (htexts : witness.signatures = some texts) :
    proof.signatureTexts = texts := by
  rw [Proof.signatureTexts, hw, Option.bind_some, Witness.signatures, htexts, Option.getD_some]

/-- Parsed signatures of an HTLC witness are the signatures of its proof. -/
theorem exists_parsed_of_htlc {proof : Proof} {witness : HtlcWitness} {sigs : List Signature}
    (hw : proof.witness = some (.htlc witness))
    (hsigs : parseSignatures witness.signatures = .ok sigs) : Parsed proof.signatureTexts sigs := by
  cases htexts : witness.signatures with
  | none =>
      rw [htexts, parseSignatures_none] at hsigs
      cases hsigs
  | some texts =>
      rw [signatureTexts_of_htlc hw htexts]
      rw [htexts] at hsigs
      exact parseSignatures_some.mp hsigs

end Htlc

section HtlcSafety

variable {env : Env} {expected : SpendingConditions} {text : String} {hash : BitVec 256}
variable {conditions : Option Conditions}

/-- An HTLC proof whose locktime passes early opens to everybody. -/
theorem not_opensEarly (hps : SpendingConditions.tryFrom env text = .ok (.htlc hash conditions))
    (h : NotReclaimable env expected text) (hpos : expected.needed ≠ 0) :
    ¬ OpensEarly 1 expected (effective conditions) := by
  rintro ⟨locktime, hl, hr, hbefore⟩
  have hhtlc : IsHtlc (env.oracle (fun _ _ _ => false) env.sha256)
      (htlcProof text ⟨"", none⟩).secret hash (effective conditions) := isHtlc_of_tryFrom hps
  have hok : verifyHtlc (env.oracle (fun _ _ _ => false) env.sha256) (locktime + 1)
      (htlcProof text ⟨"", none⟩) = .ok () :=
    (verifyHtlc_cases hhtlc).mpr ⟨_, rfl, .inl ⟨locktime, hl, hr, Nat.lt_succ_self locktime⟩⟩
  obtain ⟨signers, -, hle, hsigned⟩ := h _ _ (locktime + 1) (htlcProof text ⟨"", none⟩) rfl hbefore
    ((verifySpendingConditions_htlc hhtlc).mpr hok)
  exact hpos (Nat.le_zero.mp (no_signers_of_refused hsigned ▸ hle))

/-- An HTLC proof without listed keys opens to everybody who knows a preimage. -/
theorem pubkeys_ne_none (hps : SpendingConditions.tryFrom env text = .ok (.htlc hash conditions))
    (h : NotReclaimable env expected text) (hlock : expected.locktime ≠ some 0)
    (hpos : expected.needed ≠ 0) : (effective conditions).pubkeys ≠ none := by
  intro hp
  have hhtlc : IsHtlc (env.oracle (fun _ _ _ => false) fun _ => hash)
      (htlcProof text ⟨"", some []⟩).secret hash (effective conditions) := isHtlc_of_tryFrom hps
  have hok : verifyHtlc (env.oracle (fun _ _ _ => false) fun _ => hash) 0
      (htlcProof text ⟨"", some []⟩) = .ok () := by
    refine (verifyHtlc_cases hhtlc).mpr ⟨_, rfl, .inr (.inr ⟨rfl, ?_, pubkeysSigned_of_none hp _⟩)⟩
    intro refundKeys _
    refine ⟨[], rfl, ?_⟩
    exact List.eq_nil_iff_forall_not_mem.mpr fun key hkey => by
      obtain ⟨-, sig, hsig, -⟩ := mem_signedKeys.mp hkey
      cases hsig
  obtain ⟨signers, -, hle, hsigned⟩ := h _ _ 0 (htlcProof text ⟨"", some []⟩) rfl
    (before_zero hlock) ((verifySpendingConditions_htlc hhtlc).mpr hok)
  exact hpos (Nat.le_zero.mp (no_signers_of_refused hsigned ▸ hle))

/-- A usable refund key of an HTLC proof unlocks it at any time. -/
theorem refundCovered (hps : SpendingConditions.tryFrom env text = .ok (.htlc hash conditions))
    (h : NotReclaimable env expected text) (hlock : expected.locktime ≠ some 0) :
    RefundCovered expected (effective conditions) := by
  intro refundKeys hr key hkey hnd
  -- the oracle accepts every signature of the refund key
  let env' := env.oracle (fun x _ _ => decide (x = key.x)) env.sha256
  let proof := htlcProof text ⟨"", some [zeroSignature]⟩
  have hhtlc : IsHtlc env' proof.secret hash (effective conditions) := isHtlc_of_tryFrom hps
  obtain ⟨locktime, hl, hkeys⟩ := Option.bind_eq_some_iff.mp hr
  have hunlock : locktimeUnlocks env' 0 (utf8 text) (effective conditions)
      ⟨"", some [zeroSignature]⟩ = .ok true :=
    locktimeUnlocks_of_refund hl hkeys hkey hnd fun _ _ _ => rfl
  obtain ⟨sigs, hsigs, hsigned⟩ := (locktimeUnlocks_checked env' 0 (utf8 text) hr _).1.mp hunlock
  have hok : verifyHtlc env' 0 proof = .ok () :=
    (verifyHtlc_cases hhtlc).mpr ⟨_, rfl, .inr (.inl ⟨refundKeys, sigs, hr, hsigs, hsigned⟩)⟩
  obtain ⟨signers, hdistinct, hle, hmem⟩ := h _ _ 0 proof rfl (before_zero hlock)
    ((verifySpendingConditions_htlc hhtlc).mpr hok)
  refine hle.trans (List.subperm_of_subset hdistinct ?_).length_le
  intro signer hsigner
  obtain ⟨hexpected, _, -, _, -, hv⟩ := hmem signer hsigner
  have hx : signer.x = key.x := of_decide_eq_true hv
  exact List.mem_dedup.mpr (List.mem_filter.mpr ⟨hexpected, by simp [hx]⟩)

/-- Before the locktime an HTLC proof is kept exactly when it does not open early, its refund keys
carry enough expected keys, and it lists keys at all. -/
theorem htlc_notReclaimable_iff
    (hps : SpendingConditions.tryFrom env text = .ok (.htlc hash conditions))
    (accepted : Accepted expected (.htlc hash conditions)) (hlock : expected.locktime ≠ some 0) :
    NotReclaimable env expected text ↔
      expected.needed = 0 ∨
        (¬ OpensEarly 1 expected (effective conditions) ∧
          RefundCovered expected (effective conditions) ∧
          (effective conditions).pubkeys ≠ none) := by
  constructor
  · intro h
    by_cases hpos : expected.needed = 0
    · exact .inl hpos
    · exact .inr ⟨not_opensEarly hps h hpos, refundCovered hps h hlock,
        pubkeys_ne_none hps h hlock hpos⟩
  · rintro h schnorr sha256 now proof rfl hbefore hok
    rcases h with hzero | ⟨hlate, hcovered, hlisted⟩
    · exact ⟨[], List.nodup_nil, by rw [hzero]; exact Nat.zero_le _, by simp⟩
    have hhtlc : IsHtlc (env.oracle schnorr sha256) proof.secret hash (effective conditions) :=
      isHtlc_of_tryFrom hps
    obtain ⟨witness, hw, hway⟩ :=
      (verifyHtlc_cases hhtlc).mp ((verifySpendingConditions_htlc hhtlc).mp hok)
    rcases hway with ⟨locktime, hl, hr, hlt⟩ | ⟨refundKeys, sigs, hr, hsigs, hnd, hne⟩ |
      ⟨-, -, hsigned⟩
    · refine absurd ⟨locktime, hl, hr, ?_⟩ hlate
      intro early hearly
      have := hbefore early hearly
      omega
    · have hparsed := exists_parsed_of_htlc hw hsigs
      obtain ⟨key, hkey⟩ := List.exists_mem_of_ne_nil _ hne
      obtain ⟨hmem, sig, hsig, hv⟩ := mem_signedKeys.mp hkey
      have husable : (refundKeys.filter fun other => other.x = key.x).Nodup := by
        apply nodup_filter_of_signed hnd
        intro other _ hx
        have hx' : other.x = key.x := by simpa using hx
        exact ⟨sig, hsig, by rw [PublicKey.verify, hx']; exact hv⟩
      refine ⟨_, List.nodup_dedup _, hcovered refundKeys hr key hmem husable, ?_⟩
      intro signer hsigner
      obtain ⟨hexpected, hx⟩ := List.mem_filter.mp (List.mem_dedup.mp hsigner)
      refine ⟨hexpected, (hparsed.signed.mpr ⟨sig, hsig, hv⟩).of_x ?_⟩
      simpa using hx
    · obtain ⟨keys, hkeys⟩ := Option.ne_none_iff_exists'.mp hlisted
      obtain ⟨sigs, hsigs, hnd, hle⟩ := pubkeysSigned_iff.mp hsigned keys hkeys
      have hparsed := exists_parsed_of_htlc hw hsigs
      refine ⟨_, hnd, accepted.needed_eq ▸ hle, ?_⟩
      intro k hk
      obtain ⟨hmem, hsig⟩ := mem_signedKeys.mp hk
      refine ⟨accepted.keys k ?_, hparsed.signed.mpr hsig⟩
      rw [effective_pubkeys] at hkeys
      simpa [SpendingConditions.pubkeys, hkeys] using hmem

/-! ### Redeeming an HTLC proof -/

/-- What the signers of an HTLC witness reach: a refund key, or the threshold with the preimage
when they sign with no refund key. -/
structure HtlcMet (hash : BitVec 256) (c : Conditions) (digest : BitVec 256)
    (xs : List (BitVec 256)) : Prop where
  preimage : digest = hash
  refund : ∀ refundKeys, c.checkedRefundKeys = some refundKeys → matchedKeys refundKeys xs = []
  threshold : ∀ keys, c.pubkeys = some keys →
    (matchedKeys keys xs).Nodup ∧ c.numSigs.getD 1 ≤ (matchedKeys keys xs).length

/-- The check of an HTLC proof with signatures of the signers. -/
theorem verifyHtlc_textsOn {curve : Curve SecretKey} (ideal : curve.Ideal env) {now : Nat}
    {proof : Proof} {c : Conditions} (h : IsHtlc env proof.secret hash c) {known : String}
    {signers : List (Signer SecretKey)}
    (hw : proof.witness = some (.htlc ⟨known, some (textsOn env curve proof.secret signers)⟩)) :
    verifyHtlc env now proof = .ok () ↔
      OpenAt now c ∨
        (∃ refundKeys, c.checkedRefundKeys = some refundKeys ∧
          (matchedKeys refundKeys (signers.map curve.xOf)).Nodup ∧
          matchedKeys refundKeys (signers.map curve.xOf) ≠ []) ∨
        HtlcMet hash c (env.sha256 (utf8 known)) (signers.map curve.xOf) := by
  have hsigned : ∀ keys, signedKeys env (utf8 proof.secret) keys
      (signaturesOn env curve proof.secret signers) =
        matchedKeys keys (signers.map curve.xOf) := fun keys => signedKeys_sign ideal rfl keys _
  have hread : ∀ {P : List Signature → Prop},
      (∃ all, parseSignatures (some (textsOn env curve proof.secret signers)) = .ok all ∧ P all) ↔
        P (signaturesOn env curve proof.secret signers) := exists_parseSignatures_iff
  rw [verifyHtlc_cases h, hw]
  simp only [Option.some.injEq, Witness.htlc.injEq, exists_eq_left', pubkeysSigned_iff, hread,
    hsigned, exists_and_left]
  refine or_congr_right (or_congr_right ⟨?_, ?_⟩)
  · rintro ⟨hpre, hrefund, hthreshold⟩
    exact ⟨hpre, hrefund, hthreshold⟩
  · rintro ⟨hpre, hrefund, hthreshold⟩
    exact ⟨hpre, hrefund, hthreshold⟩

/-- Signers reach a refund key exactly when one is usable. -/
theorem exists_refund_iff {refundKeys : List PublicKey} {xs : List (BitVec 256)} :
    (∃ chosen : List (BitVec 256), chosen ⊆ xs ∧ (matchedKeys refundKeys chosen).Nodup ∧
        matchedKeys refundKeys chosen ≠ []) ↔ usableKeys refundKeys xs ≠ [] := by
  have hiff : _ ↔ 1 ≤ (usableKeys refundKeys xs).length := exists_matched_iff
  simpa only [Nat.one_le_iff_ne_zero, ne_eq, List.length_eq_zero_iff] using hiff

/-- No refund key is met exactly when no signer shares its `x` coordinate. -/
theorem matchedKeys_eq_nil_iff {keys : List PublicKey} {xs : List (BitVec 256)} :
    matchedKeys keys xs = [] ↔ ∀ x ∈ xs, keysAt [x] keys = [] := by
  simp only [List.eq_nil_iff_forall_not_mem, mem_matchedKeys, keysAt, List.mem_filter,
    List.mem_singleton, decide_eq_true_eq]
  constructor
  · rintro h x hx key ⟨hkey, rfl⟩
    exact h key ⟨hkey, hx⟩
  · rintro h key ⟨hkey, hx⟩
    exact h key.x hx key ⟨hkey, rfl⟩

/-- The coordinates at which a signature meets no refund key. -/
theorem subset_unrefunded_iff {c : Conditions} {chosen xs : List (BitVec 256)} :
    (chosen ⊆ xs.filter fun x => (keysAt [x] (c.checkedRefundKeys.getD [])).isEmpty) ↔
      chosen ⊆ xs ∧ ∀ refundKeys, c.checkedRefundKeys = some refundKeys →
        matchedKeys refundKeys chosen = [] := by
  cases hr : c.checkedRefundKeys with
  | none => simp [keysAt]
  | some refundKeys =>
      simp only [Option.getD_some, Option.some.injEq, forall_eq', matchedKeys_eq_nil_iff]
      constructor
      · intro hsub
        refine ⟨fun x hx => (List.mem_filter.mp (hsub hx)).1, fun x hx => ?_⟩
        simpa using (List.mem_filter.mp (hsub hx)).2
      · rintro ⟨hsub, hnot⟩ x hx
        exact List.mem_filter.mpr ⟨hsub hx, by simpa using hnot x hx⟩

/-- Coordinates that reach the threshold, which is none without listed keys. -/
theorem exists_chosen {c : Conditions} {xs : List (BitVec 256)} {n : Nat}
    (h : ∀ keys, c.pubkeys = some keys → n ≤ (usableKeys keys xs).length) :
    ∃ chosen : List (BitVec 256), chosen ⊆ xs ∧ ∀ keys, c.pubkeys = some keys →
      (matchedKeys keys chosen).Nodup ∧ n ≤ (matchedKeys keys chosen).length := by
  cases hp : c.pubkeys with
  | none => exact ⟨[], List.nil_subset xs, by simp⟩
  | some keys =>
      obtain ⟨chosen, hsub, hmatched⟩ := exists_matched_iff.mpr (h keys hp)
      refine ⟨chosen, hsub, ?_⟩
      rintro _ ⟨⟩
      exact hmatched

/-- An HTLC proof is redeemed exactly when the expected keys reach a refund key or, with the
expected hash, its threshold. -/
theorem htlc_redeemable_iff
    (hps : SpendingConditions.tryFrom env text = .ok (.htlc hash conditions))
    (accepted : Accepted expected (.htlc hash conditions)) (hlock : expected.locktime ≠ some 0) :
    Redeemable env expected text ↔ HtlcReaches expected hash (effective conditions) := by
  have hneeded : (effective conditions).numSigs.getD 1 = expected.needed := accepted.needed_eq
  constructor
  · intro h held hnd hsub hle
    obtain ⟨signers, known, proof, hxs, rfl, hwitness, hok⟩ :=
      h.at_zero hlock hash hnd hsub hle
    have hhtlc : IsHtlc ({ env with sha256 := knownHash expected hash } : Env).echo proof.secret
        hash (effective conditions) := isHtlc_of_tryFrom hps
    rw [verifySpendingConditions_htlc hhtlc] at hok
    rcases hwitness with hw | hw
    · obtain ⟨witness, hw', -⟩ := (verifyHtlc_cases hhtlc).mp hok
      rw [hw] at hw'
      cases hw'
    rcases (verifyHtlc_textsOn (echo_ideal _) hhtlc hw).mp hok with
      ⟨locktime, -, -, hlt⟩ | ⟨refundKeys, hr, hmatched⟩ | hmet
    · exact absurd hlt (Nat.not_lt_zero locktime)
    · exact .inl ⟨refundKeys, hr, exists_refund_iff.mp ⟨_, hxs, hmatched⟩⟩
    · refine .inr ⟨?_, ?_⟩
      · -- a P2PK condition expects no hash, and the hash function then misses that of the proof
        have hpre := hmet.preimage
        cases expected with
        | p2pk key other =>
            have hsucc : hash + 1 = hash := hpre
            simp at hsucc
        | htlc hash' other =>
            have hsame : hash' = hash := hpre
            exact ⟨other, by rw [hsame]⟩
      · intro keys hkeys
        obtain ⟨hdistinct, hreached⟩ := hmet.threshold keys hkeys
        exact exists_matched_iff.mp ⟨_, subset_unrefunded_iff.mpr ⟨hxs, hmet.refund⟩, hdistinct,
          hneeded ▸ hreached⟩
  · intro hreach schnorr sha256 now SecretKey curve holders preimage hbefore ideal hnd hsub hle
      hhash
    have hhtlc : IsHtlc (env.oracle schnorr sha256) text hash (effective conditions) :=
      isHtlc_of_tryFrom hps
    have hheld : holders.map curve.publicKey ⊆ expected.expectedKeys := by
      intro k hk
      obtain ⟨holder, hholder, rfl⟩ := List.mem_map.mp hk
      exact hsub holder hholder
    rcases hreach _ hnd hheld (by rwa [List.length_map]) with
      ⟨refundKeys, hr, husable⟩ | ⟨⟨other, rfl⟩, hthreshold⟩
    · obtain ⟨chosen, hchosen, hmatched⟩ := exists_refund_iff.mpr husable
      obtain ⟨signers, hsigners, rfl⟩ := exists_signers hchosen
      refine ⟨signers, preimage, _, hsigners, fun _ _ _ => rfl, .inr rfl, ?_⟩
      rintro proof rfl hw
      rw [verifySpendingConditions_htlc hhtlc, verifyHtlc_textsOn ideal hhtlc hw]
      exact .inr (.inl ⟨refundKeys, hr, hmatched⟩)
    · obtain ⟨chosen, hchosen, hreached⟩ := exists_chosen hthreshold
      obtain ⟨hheldx, hrefund⟩ := subset_unrefunded_iff.mp hchosen
      obtain ⟨signers, hsigners, rfl⟩ := exists_signers hheldx
      refine ⟨signers, preimage, _, hsigners, fun _ _ _ => rfl, .inr rfl, ?_⟩
      rintro proof rfl hw
      rw [verifySpendingConditions_htlc hhtlc, verifyHtlc_textsOn ideal hhtlc hw]
      exact .inr (.inr ⟨hhash hash other rfl, hrefund, hneeded ▸ hreached⟩)

end HtlcSafety

/-! ## Accepted tokens -/

/-- No time lies before a locktime of 0. -/
theorem not_before_of_zero {expected : SpendingConditions} (hzero : expected.locktime = some 0)
    (now : Nat) : ¬ expected.Before now := fun h => Nat.not_lt_zero now (h 0 hzero)

/-- A proof that was compared with the expected conditions is kept for the holders of the expected
keys exactly when it is safe to accept. -/
theorem proof_safe_iff {env : Env} {expected conditions : SpendingConditions} {text : String}
    (hps : SpendingConditions.tryFrom env text = .ok conditions)
    (accepted : Accepted expected conditions) :
    NotReclaimable env expected text ∧ Redeemable env expected text ↔
      SafeToAccept expected conditions := by
  by_cases hlock : expected.locktime = some 0
  · have hsafe : SafeToAccept expected conditions := by
      cases conditions with
      | p2pk key c => exact .inl hlock
      | htlc hash c => exact .inl hlock
    refine iff_of_true ⟨?_, ?_⟩ hsafe
    · intro _ _ now _ _ hbefore
      exact absurd hbefore (not_before_of_zero hlock now)
    · intro _ _ now _ _ _ _ hbefore
      exact absurd hbefore (not_before_of_zero hlock now)
  · cases conditions with
    | p2pk key c =>
        rw [p2pk_notReclaimable_iff hps accepted, SafeToAccept, or_iff_right hlock]
        apply and_congr_right
        intro hkept
        exact p2pk_redeemable_iff hps accepted hlock hkept
    | htlc hash c =>
        rw [htlc_notReclaimable_iff hps accepted hlock, htlc_redeemable_iff hps accepted hlock,
          SafeToAccept, or_iff_right hlock]

/-- For every token that a wallet accepts: before the expected locktime nobody spends a proof of it
without enough of the expected keys and everybody with enough of them does, exactly when each proof
is safe to accept. -/
theorem verifyTokenP2pk_sound_iff (env : Env) (mintUrl : String) (token : Token)
    (expected : SpendingConditions) (proofs : List Proof) (hproofs : token.proofs = some proofs)
    (hok : verifyTokenP2pk env mintUrl token expected = .ok ()) :
    (∀ proof ∈ proofs, NotReclaimable env expected proof.secret ∧
        Redeemable env expected proof.secret) ↔
      ∀ proof ∈ proofs, ∀ conditions,
        SpendingConditions.tryFrom env proof.secret = .ok conditions →
          SafeToAccept expected conditions := by
  apply forall_congr'
  intro proof
  apply forall_congr'
  intro hproof
  obtain ⟨conditions, hps, accepted⟩ := verifyTokenP2pk_eq_ok hproofs hok proof hproof
  rw [proof_safe_iff hps accepted, hps]
  constructor
  · rintro hsafe _ ⟨⟩
    exact hsafe
  · intro h
    exact h conditions rfl

/-! ## A token that its sender takes back -/

/-- A secret locked to the expected key, with a locktime and no refund keys. -/
def lapsingSecret : Nut10Secret :=
  ⟨.p2pk, ⟨"859d4935c4907062a6297cf4e663e2835d90d97ecdd510745d32f6816323a41f",
    "026562efcfadc8e86d44da6a8adf80633d974302e62c850774db1fb36ff4cc7198",
    some [["locktime", "1700003600"]]⟩⟩

def lapsingSecretText : String := "[\"P2PK\",\x7b\"nonce\":" ++
  "\"859d4935c4907062a6297cf4e663e2835d90d97ecdd510745d32f6816323a41f\"," ++
  "\"data\":\"026562efcfadc8e86d44da6a8adf80633d974302e62c850774db1fb36ff4cc7198\"," ++
  "\"tags\":[[\"locktime\",\"1700003600\"]]\x7d]"

def lapsingEnv : Env := Env.ofSecrets [(lapsingSecretText, lapsingSecret)]

def lapsingToken : Token :=
  ⟨some "https://mint.example.com", some [bareProof lapsingSecretText]⟩

/-- The wallet expects its key and no locktime. -/
def ownKey : SpendingConditions := .p2pk evenPoint none

/-- What the sender spends after the locktime, with no signature at all. -/
def takenBack : Proof :=
  { bareProof lapsingSecretText with witness := some (.p2pk ⟨[]⟩) }

theorem lapsing_accepted :
    verifyTokenP2pk lapsingEnv "https://mint.example.com" lapsingToken ownKey = .ok () := by
  decide +kernel

/-- The wallet accepts the token, and after the locktime the mint takes it from anybody. -/
theorem verifyTokenP2pk_accepts_lapsing :
    verifyTokenP2pk lapsingEnv "https://mint.example.com" lapsingToken ownKey = .ok () ∧
      lapsingToken.proofs = some [bareProof lapsingSecretText] ∧
      takenBack.secret = (bareProof lapsingSecretText).secret ∧ ownKey.Before 1700003600 ∧
      takenBack.signatureTexts = [] ∧
      verifySpendingConditions lapsingEnv 1700003600 takenBack = .ok () ∧
      ¬ NotReclaimable lapsingEnv ownKey (bareProof lapsingSecretText).secret := by
  have hbefore : ownKey.Before 1700003600 := by
    intro locktime hl
    cases hl
  have hok : verifySpendingConditions lapsingEnv 1700003600 takenBack = .ok () := by
    decide +kernel
  refine ⟨lapsing_accepted, rfl, rfl, hbefore, rfl, hok, ?_⟩
  intro hkept
  obtain ⟨signers, -, hle, hsigned⟩ :=
    hkept _ lapsingEnv.sha256 1700003600 takenBack rfl hbefore hok
  exact absurd (no_signers_of_refused hsigned ▸ hle) (by decide)

theorem verifyTokenP2pk_sound_iff_at_lapsing :
    (∀ proof ∈ [bareProof lapsingSecretText], NotReclaimable lapsingEnv ownKey proof.secret ∧
        Redeemable lapsingEnv ownKey proof.secret) ↔
      ∀ proof ∈ [bareProof lapsingSecretText], ∀ conditions,
        SpendingConditions.tryFrom lapsingEnv proof.secret = .ok conditions →
          SafeToAccept ownKey conditions :=
  verifyTokenP2pk_sound_iff lapsingEnv "https://mint.example.com" lapsingToken ownKey
    [bareProof lapsingSecretText] rfl lapsing_accepted

end Cdk
