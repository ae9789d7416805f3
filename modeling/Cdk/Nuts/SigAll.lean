import Cdk.Nuts.Signing
import Cdk.Nuts.Threshold

/-!
# Requests that are signed as a whole

The two sides of SIG_ALL: signing a swap or a melt request, and the check of
its signatures. Both request types share one description: a list of inputs and
a message that depends on the secrets of the inputs but not on their witnesses.

Signing appends to the witness of the first input, so a sequence of signers
leaves the list of their signatures there. The check compares the other inputs
with the first by data and tags only and counts points, while signatures know
`x` coordinates only.
-/

namespace Cdk

open Lib

variable {SecretKey R : Type}

/-- A type of requests that can be signed as a whole. -/
structure SigAllRequest (R : Type) where
  inputs : R → List Proof
  withInputs : R → List Proof → R
  message : R → String
  /-- The error for a missing first input. -/
  missing : Nut11Error
  inputs_withInputs : ∀ request proofs, inputs (withInputs request proofs) = proofs
  withInputs_inputs : ∀ request, withInputs request (inputs request) = request
  withInputs_withInputs : ∀ request proofs proofs',
    withInputs (withInputs request proofs) proofs' = withInputs request proofs'
  /-- The message does not depend on the witnesses. -/
  message_withInputs : ∀ request proofs,
    proofs.map Proof.secret = (inputs request).map Proof.secret →
      message (withInputs request proofs) = message request

namespace SigAllRequest

variable (kind : SigAllRequest R)

def signSigAll (env : Env) (curve : Curve SecretKey) (request : R) (signer : Signer SecretKey) :
    Outcome Nut11Error R := do
  let inputs ← Cdk.signSigAll env curve kind.missing (kind.message request) signer
    (kind.inputs request)
  .ok (kind.withInputs request inputs)

def verifySigAll (env : Env) (request : R) : Outcome Nut11Error Unit :=
  Cdk.verifySigAll env (kind.inputs request) (kind.message request)

/-- The request after all signers have signed it in order. -/
def signedBy (env : Env) (curve : Curve SecretKey) (request : R)
    (signers : List (Signer SecretKey)) : Outcome Nut11Error R :=
  signers.foldlM (fun request signer => kind.signSigAll env curve request signer) request

end SigAllRequest

def swapRequests : SigAllRequest SwapRequest where
  inputs := SwapRequest.inputs
  withInputs request inputs := { request with inputs := inputs }
  message := SwapRequest.sigAllMsgToSign
  missing := .incorrectSecretKind
  inputs_withInputs _ _ := rfl
  withInputs_inputs _ := rfl
  withInputs_withInputs _ _ _ := rfl
  message_withInputs request proofs h := by
    simp only [SwapRequest.sigAllMsgToSign, h]

def meltRequests : SigAllRequest MeltRequest where
  inputs := MeltRequest.inputs
  withInputs request inputs := { request with inputs := inputs }
  message := MeltRequest.sigAllMsgToSign
  missing := .spendConditionsNotMet
  inputs_withInputs _ _ := rfl
  withInputs_inputs _ := rfl
  withInputs_withInputs _ _ _ := rfl
  message_withInputs request proofs h := by
    simp only [MeltRequest.sigAllMsgToSign, h]

theorem swapRequests_signSigAll (env : Env) (curve : Curve SecretKey) (request : SwapRequest)
    (signer : Signer SecretKey) :
    swapRequests.signSigAll env curve request signer = request.signSigAll env curve signer := rfl

theorem swapRequests_verifySigAll (env : Env) (request : SwapRequest) :
    swapRequests.verifySigAll env request = request.verifySigAll env := rfl

theorem meltRequests_signSigAll (env : Env) (curve : Curve SecretKey) (request : MeltRequest)
    (signer : Signer SecretKey) :
    meltRequests.signSigAll env curve request signer = request.signSigAll env curve signer := rfl

theorem meltRequests_verifySigAll (env : Env) (request : MeltRequest) :
    meltRequests.verifySigAll env request = request.verifySigAll env := rfl

/-! ## The condition of the first input -/

/-- The keys that may sign a request, as the conditions of a P2PK secret name them. -/
def authorizedKeys (key : PublicKey) (c : Conditions) : List PublicKey :=
  (key :: c.pubkeys.getD []).dedup

/-- The first input has a P2PK condition with SIG_ALL, and the others match its data and tags. -/
structure SigAllLock (env : Env) (first : String) (rest : List String) (secret : Nut10Secret)
    (key : PublicKey) (c : Conditions) : Prop where
  parse : env.parseSecret first = some secret
  kind : secret.kind = .p2pk
  data : env.parsePublicKey secret.secretData.data = some key
  tags : Conditions.ofSecret env secret = .ok (some c)
  flag : c.sigFlag = .sigAll
  shared : ∀ text ∈ rest, ∃ s, env.parseSecret text = some s ∧
    s.secretData.data = secret.secretData.data ∧ s.secretData.tags = secret.secretData.tags

section Lock

variable {env : Env} {curve : Curve SecretKey} {first : Proof} {rest : List Proof}
variable {secret : Nut10Secret} {key : PublicKey} {c : Conditions}

theorem verifyMatchingConditions_eq_ok (hp : env.parseSecret first.secret = some secret) :
    verifyMatchingConditions env (first :: rest) = .ok () ↔
      ∀ text ∈ rest.map Proof.secret, ∃ s, env.parseSecret text = some s ∧
        s.secretData.data = secret.secretData.data ∧
        s.secretData.tags = secret.secretData.tags := by
  simp only [verifyMatchingConditions, List.head?_cons, hp, Outcome.ofOption_some,
    Outcome.bind_ok, List.drop_succ_cons, List.drop_zero]
  rw [Outcome.forM_eq_ok]
  simp only [Outcome.bind_eq_ok, Outcome.ofOption_eq_ok, Outcome.ensure_eq_ok, decide_eq_true_eq,
    List.forall_mem_map]
  constructor
  · intro h proof hproof
    obtain ⟨s, hs, _, hdata, htags⟩ := h proof hproof
    exact ⟨s, hs, hdata, htags⟩
  · intro h proof hproof
    obtain ⟨s, hs, hdata, htags⟩ := h proof hproof
    exact ⟨s, hs, (), hdata, htags⟩

theorem SigAllLock.spending
    (lock : SigAllLock env first.secret (rest.map Proof.secret) secret key c) :
    SpendingConditions.tryFrom env first.secret = .ok (.p2pk key (some c)) := by
  simp [SpendingConditions.tryFrom, lock.parse, lock.kind, lock.data, lock.tags,
    Outcome.ofOption_some]

theorem SigAllLock.matching
    (lock : SigAllLock env first.secret (rest.map Proof.secret) secret key c) :
    verifyMatchingConditions env (first :: rest) = .ok () :=
  (verifyMatchingConditions_eq_ok lock.parse).mpr lock.shared

/-- Requests whose check passes have a first input with the condition. -/
theorem exists_lock {inputs : List Proof} {msg : String}
    (h : verifySigAll env inputs msg = .ok ()) :
    ∃ first rest secret key c, inputs = first :: rest ∧
      SigAllLock env first.secret (rest.map Proof.secret) secret key c := by
  simp only [verifySigAll, Outcome.bind_eq_ok] at h
  obtain ⟨⟨required, spending⟩, hreq, _, hmatch, -⟩ := h
  simp only [getSigAllRequiredSigs, Outcome.bind_eq_ok, Outcome.ofOption_eq_ok] at hreq
  obtain ⟨first, hfirst, sp, hsp, hcase⟩ := hreq
  obtain ⟨rest, rfl⟩ : ∃ rest, inputs = first :: rest := by
    cases inputs with
    | nil => cases hfirst
    | cons a rest =>
        cases hfirst
        exact ⟨rest, rfl⟩
  simp only [SpendingConditions.tryFrom, Outcome.bind_eq_ok, Outcome.ofOption_eq_ok] at hsp
  obtain ⟨secret, hparse, hsp⟩ := hsp
  cases hkind : secret.kind with
  | htlc =>
      simp only [hkind, Outcome.bind_eq_ok, Outcome.ofOption_eq_ok, Outcome.ok.injEq] at hsp
      obtain ⟨_, -, _, -, rfl⟩ := hsp
      cases hcase
  | p2pk =>
      simp only [hkind, Outcome.bind_eq_ok, Outcome.ofOption_eq_ok, Outcome.ok.injEq] at hsp
      obtain ⟨key, hkey, conditions, hc, rfl⟩ := hsp
      simp only [Outcome.bind_eq_ok, Outcome.ofOption_eq_ok] at hcase
      obtain ⟨c, rfl, hflag⟩ := hcase
      refine ⟨first, rest, secret, key, c, rfl, hparse, hkind, hkey, hc, ?_, ?_⟩
      · by_contra hne
        rw [if_neg hne] at hflag
        cases hflag
      · exact (verifyMatchingConditions_eq_ok hparse).mp hmatch

/-- The check passes exactly when all signatures of the first input parse, no authorised key is
met twice and enough of them are met. -/
theorem verifySigAll_eq_ok {msg : String}
    (lock : SigAllLock env first.secret (rest.map Proof.secret) secret key c) :
    verifySigAll env (first :: rest) msg = .ok () ↔
      ∃ texts sigs, first.witness.bind Witness.signatures = some texts ∧ Parsed texts sigs ∧
        (signedKeys env (utf8 msg) (authorizedKeys key c) sigs).Nodup ∧
        c.numSigs.getD 1 ≤ (signedKeys env (utf8 msg) (authorizedKeys key c) sigs).length := by
  have hreq : getSigAllRequiredSigs env (first :: rest) =
      .ok (c.numSigs.getD 1, .p2pk key (some c)) := by
    simp [getSigAllRequiredSigs, lock.spending, lock.flag, Outcome.ofOption_some]
  simp only [verifySigAll, hreq, lock.matching, Outcome.bind_ok, SpendingConditions.pubkeys,
    Option.bind_some, Outcome.ofOption_some, getValidWitnessSignatures, List.head?_cons]
  simp only [Outcome.bind_eq_ok, Outcome.ofOption_eq_ok, Parsed.mapM, validSignatures_eq_ok,
    Outcome.ensure_eq_ok, decide_eq_true_eq]
  constructor
  · rintro ⟨sigs, ⟨texts, htexts, hp⟩, n, ⟨hnd, rfl⟩, hle⟩
    exact ⟨texts, sigs, htexts, hp, hnd, hle⟩
  · rintro ⟨texts, sigs, htexts, hp, hnd, hle⟩
    exact ⟨sigs, ⟨texts, htexts, hp⟩, _, ⟨hnd, rfl⟩, hle⟩

/-- Signing succeeds exactly for the authorised keys. -/
theorem signSigAll_eq_ok {missing : Nut11Error} {msg : String} {signer : Signer SecretKey}
    {inputs : List Proof}
    (lock : SigAllLock env first.secret (rest.map Proof.secret) secret key c) :
    signSigAll env curve missing msg signer (first :: rest) = .ok inputs ↔
      curve.publicKey signer.key ∈ authorizedKeys key c ∧
        inputs = first.addSignature (curve.sign env signer (utf8 msg)) :: rest := by
  have hcan : (∃ r, canSignSigAll env curve signer.key (first :: rest) = .ok r) ↔
      curve.publicKey signer.key ∈ authorizedKeys key c := by
    simp [canSignSigAll, lock.spending, lock.flag, Outcome.ofOption_some, Outcome.bind_eq_ok,
      SpendingConditions.pubkeys, authorizedKeys, Outcome.ensure, or_iff_not_imp_left]
  simp only [signSigAll, Outcome.bind_eq_ok, lock.matching]
  constructor
  · rintro ⟨r, hr, _, -, hin⟩
    cases hin
    exact ⟨hcan.mp ⟨r, hr⟩, rfl⟩
  · rintro ⟨hmem, rfl⟩
    obtain ⟨r, hr⟩ := hcan.mpr hmem
    exact ⟨r, hr, (), trivial, rfl⟩

end Lock

section Signers

variable {kind : SigAllRequest R} {env : Env} {curve : Curve SecretKey} {request request' : R}
variable {first : Proof} {rest : List Proof} {secret : Nut10Secret} {key : PublicKey}
variable {c : Conditions}

/-- Signing by authorised keys in any order leaves their signatures in the first input. -/
theorem signedBy_eq_ok (hin : kind.inputs request = first :: rest)
    (lock : SigAllLock env first.secret (rest.map Proof.secret) secret key c)
    (signers : List (Signer SecretKey)) :
    kind.signedBy env curve request signers = .ok request' ↔
      (∀ signer ∈ signers, curve.publicKey signer.key ∈ authorizedKeys key c) ∧
        request' = kind.withInputs request
          (first.addSignatures (signaturesOn env curve (kind.message request) signers) ::
            rest) := by
  induction signers generalizing request first with
  | nil =>
      have hself : kind.withInputs request (first :: rest) = request := by
        rw [← hin, kind.withInputs_inputs]
      simp [SigAllRequest.signedBy, signaturesOn, Proof.addSignatures, hself, eq_comm]
  | cons signer signers ih =>
      let sig := curve.sign env signer (utf8 (kind.message request))
      let next := kind.withInputs request (first.addSignature sig :: rest)
      have hnext : kind.inputs next = first.addSignature sig :: rest :=
        kind.inputs_withInputs _ _
      have hmsg : kind.message next = kind.message request := by
        apply kind.message_withInputs
        rw [hin, List.map_cons, List.map_cons, Proof.addSignature_secret]
      have hrest := ih hnext lock
      rw [hmsg, kind.withInputs_withInputs] at hrest
      have hcons : kind.signedBy env curve request (signer :: signers) =
          (kind.signSigAll env curve request signer >>= fun request =>
            kind.signedBy env curve request signers) := rfl
      rw [hcons, Outcome.bind_eq_ok, List.forall_mem_cons]
      simp only [SigAllRequest.signSigAll, Outcome.bind_eq_ok, hin, signSigAll_eq_ok lock,
        Outcome.ok.injEq]
      constructor
      · rintro ⟨_, ⟨_, ⟨hkey, rfl⟩, rfl⟩, hok⟩
        obtain ⟨hkeys, rfl⟩ := hrest.mp hok
        exact ⟨⟨hkey, hkeys⟩, rfl⟩
      · rintro ⟨⟨hkey, hkeys⟩, rfl⟩
        exact ⟨next, ⟨_, ⟨hkey, rfl⟩, rfl⟩, hrest.mpr ⟨hkeys, rfl⟩⟩

/-- The check of a request whose first input carries the signatures of the signers. -/
theorem verifySigAll_of_texts (ideal : curve.Ideal env) {msg : String}
    {signers : List (Signer SecretKey)}
    (lock : SigAllLock env first.secret (rest.map Proof.secret) secret key c)
    (hw : first.witness.bind Witness.signatures =
      some ((signaturesOn env curve msg signers).map Signature.toText)) :
    verifySigAll env (first :: rest) msg = .ok () ↔
      (∀ k ∈ authorizedKeys key c, (signers.map curve.xOf).count k.x ≤ 1) ∧
        c.numSigs.getD 1 ≤ (keysAt (signers.map curve.xOf) (authorizedKeys key c)).length := by
  have hsigned : signedKeys env (utf8 msg) (authorizedKeys key c)
      (signaturesOn env curve msg signers) =
        matchedKeys (authorizedKeys key c) (signers.map curve.xOf) :=
    signedKeys_sign ideal rfl _ _
  rw [verifySigAll_eq_ok lock, hw, exists_parsed_iff, hsigned]
  constructor
  · rintro ⟨hnd, hle⟩
    have hone := (nodup_matchedKeys.mp hnd).2
    rw [matchedKeys_eq_filter hone] at hle
    exact ⟨hone, hle⟩
  · rintro ⟨hone, hle⟩
    refine ⟨nodup_matchedKeys.mpr ⟨(List.nodup_dedup _).filter _, hone⟩, ?_⟩
    rw [matchedKeys_eq_filter hone]
    exact hle

/-- The check of a request that was signed by authorised keys and by nobody before. -/
theorem verifySigAll_signed (ideal : curve.Ideal env)
    (lock : SigAllLock env first.secret (rest.map Proof.secret) secret key c)
    (hw : first.witness = none) (msg : String) (signers : List (Signer SecretKey)) :
    verifySigAll env (first.addSignatures (signaturesOn env curve msg signers) :: rest) msg =
        .ok () ↔
      signers ≠ [] ∧
        (∀ k ∈ authorizedKeys key c, (signers.map curve.xOf).count k.x ≤ 1) ∧
        c.numSigs.getD 1 ≤ (keysAt (signers.map curve.xOf) (authorizedKeys key c)).length := by
  have lock' : SigAllLock env
      (first.addSignatures (signaturesOn env curve msg signers)).secret (rest.map Proof.secret)
      secret key c := by
    rw [Proof.addSignatures_secret]
    exact lock
  have htexts := Proof.addSignatures_none (signaturesOn env curve msg signers) hw
  by_cases hne : signers = []
  · subst hne
    constructor
    · intro hok
      obtain ⟨texts, -, hsome, -⟩ := (verifySigAll_eq_ok lock').mp hok
      rw [htexts] at hsome
      cases hsome
    · intro h
      exact absurd rfl h.1
  · rw [if_neg (by simpa [signaturesOn] using hne)] at htexts
    rw [verifySigAll_of_texts ideal lock' htexts, and_iff_right hne]

end Signers

/-! ## Agreement of signing and checking -/

/-- The inputs share the data and the tags of the first, which has SIG_ALL. -/
structure SharedSigAll (env : Env) (first : String) (rest : List String) (secret : Nut10Secret)
    (spending : SpendingConditions) (c : Conditions) : Prop where
  parse : env.parseSecret first = some secret
  spending : SpendingConditions.tryFrom env first = .ok spending
  tags : Conditions.ofSecret env secret = .ok (some c)
  flag : c.sigFlag = .sigAll
  shared : ∀ text ∈ rest, ∃ s, env.parseSecret text = some s ∧
    s.secretData.data = secret.secretData.data ∧ s.secretData.tags = secret.secretData.tags

namespace SigAllRequest

variable (kind : SigAllRequest R)

/-- A fresh request that enough authorised keys have signed in any order passes the check. -/
def Complete (env : Env) (request : R) : Prop :=
  ∀ first rest secret spending c, kind.inputs request = first :: rest →
    SharedSigAll env first.secret (rest.map Proof.secret) secret spending c →
    first.witness = none →
    ∀ (SecretKey : Type) (curve : Curve SecretKey) (signers : List (Signer SecretKey)),
      curve.Ideal env → (signers.map fun signer => curve.publicKey signer.key).Nodup →
      (∀ signer ∈ signers, curve.publicKey signer.key ∈ spending.pubkeys.getD []) →
      c.numSigs.getD 1 ≤ signers.length →
        (secret.kind = .p2pk → ∃ request', kind.signedBy env curve request signers = .ok request') ∧
        ∀ request', kind.signedBy env curve request signers = .ok request' →
          kind.verifySigAll env request' = .ok ()

/-- A request that passes the check has inputs of one condition, and enough distinct authorised
keys have signed its message in the witness of the first input. -/
def Sound (env : Env) (request : R) : Prop :=
  kind.verifySigAll env request = .ok () →
    ∃ first rest secret spending c, kind.inputs request = first :: rest ∧
      SharedSigAll env first.secret (rest.map Proof.secret) secret spending c ∧
      (∀ text ∈ rest.map Proof.secret, ∃ s, env.parseSecret text = some s ∧
        s.kind = secret.kind) ∧
      ∃ signers : List PublicKey, signers.Nodup ∧ c.numSigs.getD 1 ≤ signers.length ∧
        ∀ key ∈ signers, key ∈ spending.pubkeys.getD [] ∧
          Signed env (utf8 (kind.message request)) first.signatureTexts key

end SigAllRequest

/-- The threshold is at least one. For P2PK it exceeds the number of keys or no two of the keys
share an `x` coordinate, and where it can be met all inputs are P2PK. -/
def SigAllUniform (env : Env) (secrets : List String) : Prop :=
  ∀ first rest secret spending c, secrets = first :: rest →
    SharedSigAll env first rest secret spending c →
      1 ≤ c.numSigs.getD 1 ∧
      (secret.kind = .p2pk →
        (((spending.pubkeys.getD []).map PublicKey.x).Nodup ∨
          (spending.pubkeys.getD []).length < c.numSigs.getD 1) ∧
        (c.numSigs.getD 1 ≤ (spending.pubkeys.getD []).length →
          ∀ text ∈ rest, ∃ s, env.parseSecret text = some s ∧ s.kind = .p2pk))

section Agreement

variable {kind : SigAllRequest R} {env : Env} {secret : Nut10Secret} {spending : SpendingConditions}
variable {c : Conditions}

theorem SharedSigAll.lock {first : String} {rest : List String}
    (h : SharedSigAll env first rest secret spending c) (hkind : secret.kind = .p2pk) :
    ∃ key, SigAllLock env first rest secret key c ∧
      spending.pubkeys.getD [] = authorizedKeys key c := by
  have hsp := h.spending
  simp only [SpendingConditions.tryFrom, h.parse, Outcome.ofOption_some, Outcome.bind_ok, hkind,
    h.tags, Outcome.bind_eq_ok, Outcome.ofOption_eq_ok, Outcome.ok.injEq] at hsp
  obtain ⟨key, hkey, rfl⟩ := hsp
  exact ⟨key, ⟨h.parse, hkind, hkey, h.tags, h.flag, h.shared⟩, rfl⟩

theorem SigAllLock.sharedSigAll {first : String} {rest : List String} {key : PublicKey}
    (lock : SigAllLock env first rest secret key c) :
    SharedSigAll env first rest secret (.p2pk key (some c)) c where
  parse := lock.parse
  spending := by
    simp [SpendingConditions.tryFrom, lock.parse, lock.kind, lock.data, lock.tags,
      Outcome.ofOption_some]
  tags := lock.tags
  flag := lock.flag
  shared := lock.shared

/-- Nobody signs a request whose first input is not P2PK. -/
theorem kind_of_signedBy {curve : Curve SecretKey} {request request' : R} {first : Proof}
    {rest : List Proof} {signers : List (Signer SecretKey)}
    (hin : kind.inputs request = first :: rest)
    (h : SharedSigAll env first.secret (rest.map Proof.secret) secret spending c)
    (hne : signers ≠ [])
    (hok : kind.signedBy env curve request signers = .ok request') : secret.kind = .p2pk := by
  obtain ⟨signer, signers, rfl⟩ := List.exists_cons_of_ne_nil hne
  have hcons : kind.signedBy env curve request (signer :: signers) =
      (kind.signSigAll env curve request signer >>= fun request =>
        kind.signedBy env curve request signers) := rfl
  simp only [hcons, SigAllRequest.signSigAll, signSigAll, hin, Outcome.bind_eq_ok] at hok
  obtain ⟨_, ⟨_, ⟨_, hcan, -⟩, -⟩, -⟩ := hok
  cases hkind : secret.kind with
  | p2pk => rfl
  | htlc =>
      have hsp := h.spending
      simp only [SpendingConditions.tryFrom, h.parse, Outcome.ofOption_some, Outcome.bind_ok,
        hkind, h.tags, Outcome.bind_eq_ok, Outcome.ofOption_eq_ok, Outcome.ok.injEq] at hsp
      obtain ⟨hash, -, rfl⟩ := hsp
      simp [canSignSigAll, h.spending, Outcome.ofOption_some] at hcan

/-- Distinct points of a list without shared `x` coordinates have distinct `x` coordinates. -/
theorem nodup_xOf {curve : Curve SecretKey} {signers : List (Signer SecretKey)}
    {keys : List PublicKey} (hx : (keys.map PublicKey.x).Nodup)
    (hnd : (signers.map fun signer => curve.publicKey signer.key).Nodup)
    (hsub : ∀ signer ∈ signers, curve.publicKey signer.key ∈ keys) :
    (signers.map curve.xOf).Nodup := by
  rw [map_xOf]
  apply hnd.map_on
  intro k hk k' hk' heq
  obtain ⟨signer, hs, rfl⟩ := List.mem_map.mp hk
  obtain ⟨signer', hs', rfl⟩ := List.mem_map.mp hk'
  exact List.inj_on_of_nodup_map hx (hsub signer hs) (hsub signer' hs') heq

/-- Authorised signers are met by the check. -/
theorem length_le_keysAt {curve : Curve SecretKey} {signers : List (Signer SecretKey)}
    {keys : List PublicKey}
    (hnd : (signers.map fun signer => curve.publicKey signer.key).Nodup)
    (hsub : ∀ signer ∈ signers, curve.publicKey signer.key ∈ keys) :
    signers.length ≤ (keysAt (signers.map curve.xOf) keys).length := by
  have hmem : (signers.map fun signer => curve.publicKey signer.key) ⊆
      keysAt (signers.map curve.xOf) keys := by
    intro k hk
    obtain ⟨signer, hs, rfl⟩ := List.mem_map.mp hk
    have hx : curve.xOf signer ∈ signers.map curve.xOf := List.mem_map_of_mem hs
    exact List.mem_filter.mpr ⟨hsub signer hs, decide_eq_true hx⟩
  have hlen := (List.subperm_of_subset hnd hmem).length_le
  rwa [List.length_map] at hlen

theorem complete_of_uniform {request : R}
    (h : SigAllUniform env ((kind.inputs request).map Proof.secret)) :
    kind.Complete env request := by
  intro first rest secret spending c hin hshared hw SecretKey curve signers ideal hnd hsub hle
  have huniform := h first.secret (rest.map Proof.secret) secret spending c
    (by rw [hin, List.map_cons]) hshared
  have hne : signers ≠ [] := by
    rintro rfl
    exact absurd (huniform.1.trans hle) (by simp)
  have hverify : secret.kind = .p2pk →
      ∃ request', kind.signedBy env curve request signers = .ok request' ∧
        kind.verifySigAll env request' = .ok () := by
    intro hkind
    obtain ⟨key, lock, hkeys⟩ := hshared.lock hkind
    rw [hkeys] at hsub
    refine ⟨_, (signedBy_eq_ok hin lock signers).mpr ⟨hsub, rfl⟩, ?_⟩
    have hlen := length_le_keysAt hnd hsub
    rw [SigAllRequest.verifySigAll, kind.inputs_withInputs, kind.message_withInputs _ _
      (by rw [hin, List.map_cons, List.map_cons, Proof.addSignatures_secret]),
      verifySigAll_signed ideal lock hw]
    rcases (huniform.2 hkind).1 with hx | hfew
    · rw [hkeys] at hx
      refine ⟨hne, ?_, hle.trans hlen⟩
      intro k _
      exact List.nodup_iff_count_le_one.mp (nodup_xOf hx hnd hsub) k.x
    · have hall : (keysAt (signers.map curve.xOf) (authorizedKeys key c)).length ≤
          (authorizedKeys key c).length := List.length_filter_le _ _
      rw [hkeys] at hfew
      omega
  constructor
  · intro hkind
    obtain ⟨request', hok, -⟩ := hverify hkind
    exact ⟨request', hok⟩
  · intro request' hok
    obtain ⟨request'', hok', hpass⟩ := hverify (kind_of_signedBy hin hshared hne hok)
    rw [hok, Outcome.ok.injEq] at hok'
    rwa [hok']

theorem sound_of_uniform {request : R}
    (h : SigAllUniform env ((kind.inputs request).map Proof.secret)) :
    kind.Sound env request := by
  intro hok
  obtain ⟨first, rest, secret, key, c, hin, lock⟩ := exists_lock hok
  rw [SigAllRequest.verifySigAll, hin] at hok
  obtain ⟨texts, sigs, htexts, hp, hnd, hle⟩ := (verifySigAll_eq_ok lock).mp hok
  have hsub : signedKeys env (utf8 (kind.message request)) (authorizedKeys key c) sigs ⊆
      authorizedKeys key c := fun k hk => (mem_signedKeys.mp hk).1
  have hmany := hle.trans (List.subperm_of_subset hnd hsub).length_le
  have hkinds := ((h _ _ _ _ _ (by rw [hin, List.map_cons]) lock.sharedSigAll).2 lock.kind).2 hmany
  refine ⟨first, rest, secret, _, c, hin, lock.sharedSigAll, ?_, _, hnd, hle, ?_⟩
  · rwa [lock.kind]
  · intro k hk
    obtain ⟨hmem, hsig⟩ := mem_signedKeys.mp hk
    rw [Proof.signatureTexts, htexts, Option.getD_some]
    exact ⟨hmem, hp.signed.mpr hsig⟩

/-- A proof of a secret without a witness. -/
def bareProof (text : String) : Proof := ⟨Amount.one, .v1 0, text, ⟨false, 0⟩, none⟩

theorem map_secret_bareProof (texts : List String) :
    (texts.map bareProof).map Proof.secret = texts := by
  rw [List.map_map]
  exact List.map_id texts

section Requests

variable (kind) (request : R)

/-- A fresh request with the given input secrets. -/
def SigAllRequest.fresh (first : String) (rest : List String) : R :=
  kind.withInputs request (bareProof first :: rest.map bareProof)

theorem SigAllRequest.inputs_fresh (first : String) (rest : List String) :
    kind.inputs (kind.fresh request first rest) = bareProof first :: rest.map bareProof :=
  kind.inputs_withInputs _ _

theorem SigAllRequest.secrets_fresh (first : String) (rest : List String) :
    (kind.inputs (kind.fresh request first rest)).map Proof.secret = first :: rest := by
  rw [kind.inputs_fresh, List.map_cons, map_secret_bareProof]
  rfl

end Requests

/-- A request that nobody signed does not pass the check. -/
theorem one_le_of_complete (request : R) {first : String} {rest : List String}
    (hshared : SharedSigAll env first rest secret spending c)
    (h : kind.Complete env.echo (kind.fresh request first rest)) : 1 ≤ c.numSigs.getD 1 := by
  apply Nat.lt_of_not_le
  intro hzero
  have hshared' : SharedSigAll env.echo (bareProof first).secret
      ((rest.map bareProof).map Proof.secret) secret spending c := by
    rw [map_secret_bareProof]
    exact ⟨hshared.parse, hshared.spending, hshared.tags, hshared.flag, hshared.shared⟩
  have hpass := (h _ _ _ _ _ (kind.inputs_fresh request first rest) hshared' rfl PublicKey
    echoCurve [] (echo_ideal env) List.nodup_nil (by simp) hzero).2 _ rfl
  obtain ⟨first', rest', secret', key, c', hin, lock⟩ := exists_lock hpass
  rw [kind.inputs_fresh, List.cons.injEq] at hin
  rw [SigAllRequest.verifySigAll, kind.inputs_fresh, hin.1, hin.2] at hpass
  obtain ⟨texts, -, htexts, -⟩ := (verifySigAll_eq_ok lock).mp hpass
  rw [← hin.1] at htexts
  cases htexts

/-- Two authorised points with one `x` coordinate make each other's signatures duplicates. -/
theorem distinct_of_complete (request : R) {first : String} {rest : List String}
    {key : PublicKey} (lock : SigAllLock env first rest secret key c)
    (h : kind.Complete env.echo (kind.fresh request first rest)) :
    ((authorizedKeys key c).map PublicKey.x).Nodup ∨
      (authorizedKeys key c).length < c.numSigs.getD 1 := by
  by_contra hnot
  simp only [not_or, Nat.not_lt] at hnot
  let signers := echoSigners (authorizedKeys key c)
  have lock' : SigAllLock env.echo (bareProof first).secret
      ((rest.map bareProof).map Proof.secret) secret key c := by
    rw [map_secret_bareProof]
    exact ⟨lock.parse, lock.kind, lock.data, lock.tags, lock.flag, lock.shared⟩
  have hsub : ∀ signer ∈ signers, echoCurve.publicKey signer.key ∈ authorizedKeys key c :=
    fun _ => publicKey_mem_of_echoSigners
  have hin := kind.inputs_fresh request first rest
  have hboth := h _ _ _ _ _ hin lock'.sharedSigAll rfl PublicKey echoCurve signers
    (echo_ideal env) (by rw [publicKey_echoSigners]; exact List.nodup_dedup _) hsub
    (by simpa [signers, echoSigners] using hnot.2)
  have hpass := hboth.2 _ ((signedBy_eq_ok hin lock' signers).mpr ⟨hsub, rfl⟩)
  rw [SigAllRequest.verifySigAll, kind.inputs_withInputs, kind.message_withInputs _ _
    (by rw [hin, List.map_cons, List.map_cons, Proof.addSignatures_secret]),
    verifySigAll_signed (echo_ideal env) lock' rfl, xOf_echoSigners] at hpass
  apply hnot.1
  apply List.nodup_iff_count_le_one.mpr
  intro x
  by_cases hx : x ∈ (authorizedKeys key c).map PublicKey.x
  · obtain ⟨k, hk, rfl⟩ := List.mem_map.mp hx
    exact hpass.2.1 k hk
  · rw [List.count_eq_zero.mpr hx]
    exact Nat.zero_le 1

/-- An input of another kind slips through when its data and tags match. -/
theorem kinds_of_sound (request : R) {first : String} {rest : List String} {key : PublicKey}
    (lock : SigAllLock env first rest secret key c)
    (hle : c.numSigs.getD 1 ≤ (authorizedKeys key c).length)
    (h : ∀ schnorr request', (kind.inputs request').map Proof.secret = first :: rest →
      kind.Sound { env with verifySchnorr := schnorr } request') :
    ∀ text ∈ rest, ∃ s, env.parseSecret text = some s ∧ s.kind = .p2pk := by
  let xs := (authorizedKeys key c).map PublicKey.x
  let signed := kind.withInputs request (singleProof first key :: rest.map bareProof)
  have hin : kind.inputs signed = singleProof first key :: rest.map bareProof :=
    kind.inputs_withInputs _ _
  have lock' : SigAllLock (env.accepting xs) (singleProof first key).secret
      ((rest.map bareProof).map Proof.secret) secret key c := by
    rw [map_secret_bareProof]
    exact ⟨lock.parse, lock.kind, lock.data, lock.tags, lock.flag, lock.shared⟩
  have hall : signedKeys (env.accepting xs) (utf8 (kind.message signed)) (authorizedKeys key c)
      [0] = authorizedKeys key c := by
    rw [signedKeys_singleton]
    apply List.filter_eq_self.mpr
    intro k hk
    rw [verify_accepting]
    exact decide_eq_true (List.mem_map_of_mem hk)
  have hpass : kind.verifySigAll (env.accepting xs) signed = .ok () := by
    rw [SigAllRequest.verifySigAll, hin, verifySigAll_eq_ok lock']
    refine ⟨_, [0], rfl, Parsed.toText [0], ?_, ?_⟩
    · rw [hall]
      exact List.nodup_dedup _
    · rw [hall]
      exact hle
  have hsecrets : (kind.inputs signed).map Proof.secret = first :: rest := by
    rw [hin, List.map_cons, map_secret_bareProof]
    rfl
  obtain ⟨first', rest', secret', _, _, hin', hshared, hkinds, -⟩ := h _ signed hsecrets hpass
  rw [hin, List.cons.injEq] at hin'
  have hsame : secret' = secret := by
    have hparse := hshared.parse
    rw [← hin'.1] at hparse
    exact Option.some.inj (hparse.symm.trans lock.parse)
  rw [← hin'.2, map_secret_bareProof, hsame, lock.kind] at hkinds
  exact hkinds

/-- For every list of input secrets: all requests with these inputs agree for all signature
oracles exactly when the inputs are uniform. -/
theorem SigAllRequest.agrees_iff (kind : SigAllRequest R) (env : Env) (secrets : List String)
    (request : R) :
    (∀ schnorr request', (kind.inputs request').map Proof.secret = secrets →
        kind.Complete { env with verifySchnorr := schnorr } request' ∧
          kind.Sound { env with verifySchnorr := schnorr } request') ↔
      SigAllUniform env secrets := by
  constructor
  · rintro hagree first rest secret spending c rfl hshared
    have hcomplete := (hagree env.echo.verifySchnorr _ (kind.secrets_fresh request first rest)).1
    refine ⟨one_le_of_complete request hshared hcomplete, ?_⟩
    intro hkind
    obtain ⟨key, lock, hkeys⟩ := hshared.lock hkind
    rw [hkeys]
    refine ⟨distinct_of_complete request lock hcomplete, ?_⟩
    intro hle
    exact kinds_of_sound request lock hle fun schnorr request' h => (hagree schnorr request' h).2
  · rintro huniform schnorr request' rfl
    have huniform' : SigAllUniform { env with verifySchnorr := schnorr }
        ((kind.inputs request').map Proof.secret) := by
      intro first rest secret spending c hsecrets hshared
      exact huniform first rest secret spending c hsecrets
        ⟨hshared.parse, hshared.spending, hshared.tags, hshared.flag, hshared.shared⟩
    exact ⟨complete_of_uniform huniform', sound_of_uniform huniform'⟩

end Agreement

/-- Swap and melt requests agree under the same condition. -/
theorem sigAll_agrees_iff (env : Env) (secrets : List String) :
    ((∀ schnorr (request : SwapRequest), request.inputs.map Proof.secret = secrets →
        swapRequests.Complete { env with verifySchnorr := schnorr } request ∧
          swapRequests.Sound { env with verifySchnorr := schnorr } request) ↔
      SigAllUniform env secrets) ∧
    ((∀ schnorr (request : MeltRequest), request.inputs.map Proof.secret = secrets →
        meltRequests.Complete { env with verifySchnorr := schnorr } request ∧
          meltRequests.Sound { env with verifySchnorr := schnorr } request) ↔
      SigAllUniform env secrets) :=
  ⟨swapRequests.agrees_iff env secrets ⟨[], []⟩,
    meltRequests.agrees_iff env secrets ⟨.uuid 0, [], none⟩⟩

/-! ## Inputs of two kinds -/

/-- A P2PK secret with SIG_ALL and an HTLC secret with the same data and tags. -/
def mixedSecret (kind : Kind) : Nut10Secret :=
  ⟨kind, ⟨"5d11913ee0f92fefdc82a6764fd2457a",
    "026562efcfadc8e86d44da6a8adf80633d974302e62c850774db1fb36ff4cc7198",
    some [["sigflag", "SIG_ALL"]]⟩⟩

def mixedSecretText (kind : String) : String :=
  "[\"" ++ kind ++ "\",\x7b\"nonce\":\"5d11913ee0f92fefdc82a6764fd2457a\"," ++
  "\"data\":\"026562efcfadc8e86d44da6a8adf80633d974302e62c850774db1fb36ff4cc7198\"," ++
  "\"tags\":[[\"sigflag\",\"SIG_ALL\"]]\x7d]"

def mixedEnv : Env :=
  (Env.ofSecrets [(mixedSecretText "P2PK", mixedSecret .p2pk),
    (mixedSecretText "HTLC", mixedSecret .htlc)]).accepting [evenPoint.x]

/-- The key of the first input has signed; the second input is an HTLC. -/
def mixedRequest : SwapRequest :=
  ⟨[singleProof (mixedSecretText "P2PK") evenPoint, bareProof (mixedSecretText "HTLC")], []⟩

theorem mixedEnv_parseSecret :
    mixedEnv.parseSecret (mixedSecretText "P2PK") = some (mixedSecret .p2pk) ∧
      mixedEnv.parseSecret (mixedSecretText "HTLC") = some (mixedSecret .htlc) := by
  decide +kernel

/-- The check passes although the inputs are of two kinds. -/
theorem verifySigAll_mixed_kinds :
    mixedRequest.verifySigAll mixedEnv = .ok () ∧ ¬ swapRequests.Sound mixedEnv mixedRequest := by
  have hok : mixedRequest.verifySigAll mixedEnv = .ok () := by
    decide +kernel
  refine ⟨hok, ?_⟩
  intro hsound
  obtain ⟨first, rest, secret, spending, c, hin, hshared, hkinds, -⟩ := hsound hok
  cases hin
  have hparse := hshared.parse
  rw [show (singleProof (mixedSecretText "P2PK") evenPoint).secret =
      mixedSecretText "P2PK" from rfl,
    mixedEnv_parseSecret.1, Option.some.injEq] at hparse
  obtain ⟨s, hs, hkind⟩ := hkinds (mixedSecretText "HTLC") (by simp [bareProof])
  rw [mixedEnv_parseSecret.2, Option.some.injEq] at hs
  rw [← hs, ← hparse] at hkind
  cases hkind

end Cdk
