import Cdk.Mint.SwapSaga
import Cdk.Nuts.SigAll

/-!
# The two checks of a swap that is signed as a whole

On the path of a swap the mint checks the spending conditions twice: every
input on its own, and the request as a whole when an input has SIG_ALL. The
first check looks for signatures on the secret in the witness of each input.
Signing a request as a whole writes into the first input only, and what it
signs is the message of the request.
-/

namespace Cdk

open Lib

variable {SecretKey : Type}

/-- The two checks of spending conditions on the path of a swap. -/
def checkSpendingConditions (env : Env) (now : Nat) (request : SwapRequest) :
    Outcome Error Unit := do
  request.inputs.forM (verifySpendingConditions env now)
  validateSigFlag env request

/-- A swap that gets past the checks without database passes the two. -/
theorem checkSpendingConditions_of_verifySwapRequest {env : Env} {keysets : Keysets} {now : Nat}
    {request : SwapRequest} {verification : Verification}
    (h : verifySwapRequest env keysets now request = .ok verification) :
    checkSpendingConditions env now request = .ok () := by
  simp only [verifySwapRequest, verifyInputs, verifyProofs, Outcome.bind_eq_ok] at h
  obtain ⟨_, -, _, -, _, ⟨_, -, _, -, _, -, _, ⟨_, heach, -⟩, -⟩, _, hflag, -⟩ := h
  rw [checkSpendingConditions, Outcome.bind_eq_ok]
  exact ⟨_, heach, hflag⟩

section P2pk

variable {env : Env} {now : Nat}

theorem IsP2pk.unique {text : String} {key key' : PublicKey} {c c' : Conditions}
    (h : IsP2pk env text key c) (h' : IsP2pk env text key' c') : key = key' ∧ c = c' := by
  obtain ⟨secret, hs, -, hkey, hc⟩ := h
  obtain ⟨secret', hs', -, hkey', hc'⟩ := h'
  cases hs.symm.trans hs'
  cases hkey.symm.trans hkey'
  cases hc.symm.trans hc'
  exact ⟨rfl, rfl⟩

theorem verifySpendingConditions_eq_ok {proof : Proof} {key : PublicKey} {c : Conditions}
    (h : IsP2pk env proof.secret key c) :
    verifySpendingConditions env now proof = .ok () ↔ verifyP2pk env now proof = .ok () := by
  obtain ⟨secret, hs, hkind, -⟩ := h
  simp only [verifySpendingConditions, hs, hkind, Outcome.mapErr_eq_ok]

/-- The tags that a proof is checked with give the conditions of its secret; without tags these
are absent there, and the check uses the default ones, whose flag is SIG_INPUTS. -/
theorem ofSecret_of_tryFrom {secret : Nut10Secret} {c : Conditions}
    (hc : Conditions.tryFrom env (secret.secretData.tags.getD []) = .ok c) :
    Conditions.ofSecret env secret = .ok (some c) ∨
      (Conditions.ofSecret env secret = .ok none ∧ c.sigFlag = .sigInputs) := by
  unfold Conditions.ofSecret
  cases htags : secret.secretData.tags with
  | none =>
      rw [htags] at hc
      cases hc
      exact .inr ⟨rfl, rfl⟩
  | some tags =>
      rw [htags, Option.getD_some] at hc
      dsimp only
      rw [hc]
      exact .inl rfl

/-- A P2PK proof sets the flag when its conditions do. -/
theorem enforceStep_isP2pk {proof : Proof} {key : PublicKey} {c : Conditions}
    (h : IsP2pk env proof.secret key c) (acc : EnforceSigFlag) :
    ∃ flag, enforceStep env acc proof = .ok flag ∧
      (flag.sigFlag = .sigAll ↔ acc.sigFlag = .sigAll ∨ c.sigFlag = .sigAll) := by
  obtain ⟨secret, hs, -, -, hc⟩ := h
  rcases ofSecret_of_tryFrom hc with hof | ⟨hof, hflag⟩
  · simp only [enforceStep, hs, hof, Outcome.bind_ok]
    refine ⟨_, rfl, ?_⟩
    by_cases hflag : c.sigFlag = .sigAll
    · simp [hflag]
    · simp [hflag]
  · simp only [enforceStep, hs, hof, Outcome.bind_ok]
    exact ⟨_, rfl, by simp [hflag]⟩

/-- The flag of P2PK proofs. -/
theorem enforceSigFlag_isP2pk {proofs : List Proof}
    (h : ∀ proof ∈ proofs, ∃ key c, IsP2pk env proof.secret key c) (acc : EnforceSigFlag) :
    ∃ flag, proofs.foldlM (enforceStep env) acc = .ok flag ∧
      (flag.sigFlag = .sigAll ↔ acc.sigFlag = .sigAll ∨
        ∃ proof ∈ proofs, ∃ key c, IsP2pk env proof.secret key c ∧ c.sigFlag = .sigAll) := by
  induction proofs generalizing acc with
  | nil => exact ⟨acc, rfl, by simp⟩
  | cons proof rest ih =>
      obtain ⟨key, c, hp⟩ := h proof List.mem_cons_self
      obtain ⟨flag, hstep, hflag⟩ := enforceStep_isP2pk hp acc
      obtain ⟨result, hrest, hresult⟩ := ih (fun p hp => h p (List.mem_cons_of_mem _ hp)) flag
      refine ⟨result, ?_, ?_⟩
      · rw [List.foldlM_cons, hstep, Outcome.bind_ok, hrest]
      · have hhead : (∃ key c, IsP2pk env proof.secret key c ∧ c.sigFlag = .sigAll) ↔
            c.sigFlag = .sigAll := by
          constructor
          · rintro ⟨key', c', hp', hall⟩
            rw [(hp.unique hp').2]
            exact hall
          · intro hall
            exact ⟨key, c, hp, hall⟩
        rw [hresult, hflag, List.exists_mem_cons_iff, hhead, or_assoc]

/-- The second check looks at the request as a whole when an input has SIG_ALL. -/
theorem validateSigFlag_eq_ok {request : SwapRequest}
    (h : ∀ proof ∈ request.inputs, ∃ key c, IsP2pk env proof.secret key c) :
    validateSigFlag env request = .ok () ↔
      ((∃ proof ∈ request.inputs, ∃ key c, IsP2pk env proof.secret key c ∧
        c.sigFlag = .sigAll) → request.verifySigAll env = .ok ()) := by
  obtain ⟨flag, hflag, hall⟩ := enforceSigFlag_isP2pk h ⟨.sigInputs, [], 1⟩
  have hflag' : enforceSigFlag env request.inputs = .ok flag := hflag
  have hall' : flag.sigFlag = .sigAll ↔ ∃ proof ∈ request.inputs, ∃ key c,
      IsP2pk env proof.secret key c ∧ c.sigFlag = .sigAll := by
    rw [hall]
    simp
  simp only [validateSigFlag, hflag', Outcome.mapErr, Outcome.bind_ok, ← hall']
  by_cases hsig : flag.sigFlag = .sigAll
  · rw [if_pos hsig]
    exact Outcome.mapErr_eq_ok.trans ⟨fun h _ => h, fun h => h hsig⟩
  · rw [if_neg hsig]
    exact ⟨fun _ h => absurd h hsig, fun _ => rfl⟩

/-- The two checks of a request with P2PK inputs. -/
theorem checkSpendingConditions_eq_ok {request : SwapRequest}
    (h : ∀ proof ∈ request.inputs, ∃ key c, IsP2pk env proof.secret key c) :
    checkSpendingConditions env now request = .ok () ↔
      (∀ proof ∈ request.inputs, verifyP2pk env now proof = .ok ()) ∧
        ((∃ proof ∈ request.inputs, ∃ key c, IsP2pk env proof.secret key c ∧
          c.sigFlag = .sigAll) → request.verifySigAll env = .ok ()) := by
  rw [checkSpendingConditions, Outcome.bind_eq_ok]
  simp only [Outcome.forM_eq_ok, exists_const, validateSigFlag_eq_ok h]
  apply and_congr_left'
  apply forall₂_congr
  intro proof hproof
  obtain ⟨key, c, hp⟩ := h proof hproof
  exact verifySpendingConditions_eq_ok hp

end P2pk

/-! ## A swap that its owners have signed -/

/-- One input, signers of different `x` coordinates, and signatures that count for the secret as
well: no signature is asked for, or the secret and the message have one hash and no signer's key
is listed twice. -/
def SignedSwapPasses (env : Env) (request : SwapRequest) (text : String) (key : PublicKey)
    (c : Conditions) (xs : List (BitVec 256)) : Prop :=
  request.inputs.length = 1 ∧ xs ≠ [] ∧ xs.Nodup ∧
    if env.sha256 (utf8 text) = env.sha256 (utf8 request.sigAllMsgToSign) then
      (keysAt xs (listedKeys key c)).Nodup
    else c.numSigs = some 0

section Signed

variable {env : Env} {curve : Curve SecretKey} {now : Nat} {request : SwapRequest}
variable {first : Proof} {rest : List Proof} {secret : Nut10Secret} {key : PublicKey}
variable {c : Conditions} {signers : List (Signer SecretKey)}

/-- Inputs of one P2PK condition have its key and its conditions. -/
theorem SigAllLock.isP2pk (lock : SigAllLock env first.secret (rest.map Proof.secret) secret key c)
    (hkinds : ∀ text ∈ rest.map Proof.secret, ∃ s, env.parseSecret text = some s ∧
      s.kind = .p2pk) :
    ∀ text ∈ (first :: rest).map Proof.secret, IsP2pk env text key c := by
  have htags : Conditions.tryFrom env (secret.secretData.tags.getD []) = .ok c :=
    tryFrom_of_ofSecret lock.tags
  rw [List.map_cons, List.forall_mem_cons]
  refine ⟨⟨secret, lock.parse, lock.kind, lock.data, htags⟩, ?_⟩
  intro text htext
  obtain ⟨s, hs, hdata, hsame⟩ := lock.shared text htext
  obtain ⟨s', hs', hkind⟩ := hkinds text htext
  cases hs.symm.trans hs'
  exact ⟨s, hs, hkind, by rw [hdata]; exact lock.data, by rw [hsame]; exact htags⟩

theorem mem_listedKeys {k : PublicKey} : k ∈ listedKeys key c ↔ k ∈ authorizedKeys key c := by
  simp [listedKeys, authorizedKeys, or_comm]

/-- Signers of listed keys are counted once each when their `x` coordinates differ. -/
theorem count_le_one_iff {keys : List PublicKey}
    (hmem : ∀ signer ∈ signers, curve.publicKey signer.key ∈ keys) :
    (∀ k ∈ keys, (signers.map curve.xOf).count k.x ≤ 1) ↔ (signers.map curve.xOf).Nodup := by
  rw [List.nodup_iff_count_le_one]
  constructor
  · intro h x
    by_cases hx : x ∈ signers.map curve.xOf
    · obtain ⟨signer, hs, rfl⟩ := List.mem_map.mp hx
      exact h _ (hmem signer hs)
    · rw [List.count_eq_zero.mpr hx]
      exact Nat.zero_le 1
  · intro h k _
    exact h k.x

/-- An input without a witness is refused. -/
theorem verifyP2pk_unsigned (h : IsP2pk env first.secret key c) (hw : first.witness = none) :
    verifyP2pk env now first ≠ .ok () := by
  intro hok
  obtain ⟨texts, htexts, -⟩ := (verifyP2pk_eq_ok h).mp hok
  rw [hw] at htexts
  cases htexts

/-- The first check of the input that carries the signatures on the message. -/
theorem verifyP2pk_signedInput (ideal : curve.Ideal env) (h : IsP2pk env first.secret key c)
    (hexp : ¬ Expired now c) (hw : first.witness = none)
    (hnd : (signers.map fun signer => curve.publicKey signer.key).Nodup)
    (hmem : ∀ signer ∈ signers, curve.publicKey signer.key ∈ listedKeys key c)
    (hle : c.numSigs.getD 1 ≤ signers.length) (msg : String) :
    verifyP2pk env now (first.addSignatures (signaturesOn env curve msg signers)) = .ok () ↔
      signers ≠ [] ∧
        if env.sha256 (utf8 first.secret) = env.sha256 (utf8 msg) then
          (signers.map curve.xOf).Nodup ∧
            (keysAt (signers.map curve.xOf) (listedKeys key c)).Nodup
        else c.numSigs = some 0 := by
  have h' : IsP2pk env (first.addSignatures (signaturesOn env curve msg signers)).secret key c := by
    rw [Proof.addSignatures_secret]
    exact h
  rw [verifyP2pk_before h' hexp, Proof.addSignatures_none _ hw, Proof.addSignatures_secret]
  by_cases hne : signers = []
  · subst hne
    simp [signaturesOn]
  rw [if_neg (by simpa [signaturesOn] using hne)]
  rw [exists_parsed_iff, and_iff_right hne]
  by_cases hd : env.sha256 (utf8 first.secret) = env.sha256 (utf8 msg)
  · have hsigned : signedKeys env (utf8 first.secret) (listedKeys key c)
        (signaturesOn env curve msg signers) =
          matchedKeys (listedKeys key c) (signers.map curve.xOf) := signedKeys_sign ideal hd _ _
    rw [if_pos hd, hsigned, nodup_matchedKeys, count_le_one_iff hmem]
    constructor
    · rintro ⟨⟨hlisted, hxs⟩, -⟩
      exact ⟨hxs, hlisted⟩
    · rintro ⟨hxs, hlisted⟩
      refine ⟨⟨hlisted, hxs⟩, ?_⟩
      rw [matchedKeys_eq_filter ((count_le_one_iff hmem).mpr hxs)]
      exact hle.trans (length_le_keysAt hnd hmem)
  · have hsigned : signedKeys env (utf8 first.secret) (listedKeys key c)
        (signaturesOn env curve msg signers) = [] := signedKeys_sign_of_ne ideal hd _ _
    rw [if_neg hd, hsigned]
    cases hn : c.numSigs <;> simp

end Signed

/-- For every swap of inputs with one P2PK condition of SIG_ALL before its locktime, and all
authorised signers in any order: signing as a whole satisfies both checks exactly under the
condition above. -/
theorem signedSwap_passes_iff (env : Env) (curve : Curve SecretKey) (ideal : curve.Ideal env)
    (now : Nat) (request : SwapRequest) (first : Proof) (rest : List Proof)
    (secret : Nut10Secret) (key : PublicKey) (c : Conditions)
    (hin : request.inputs = first :: rest)
    (lock : SigAllLock env first.secret (rest.map Proof.secret) secret key c)
    (hkinds : ∀ text ∈ rest.map Proof.secret, ∃ s, env.parseSecret text = some s ∧ s.kind = .p2pk)
    (hexp : ¬ Expired now c) (hw : ∀ proof ∈ request.inputs, proof.witness = none)
    (signers : List (Signer SecretKey))
    (hnd : (signers.map fun signer => curve.publicKey signer.key).Nodup)
    (hmem : ∀ signer ∈ signers, curve.publicKey signer.key ∈ authorizedKeys key c)
    (hle : c.numSigs.getD 1 ≤ signers.length) :
    (∃ request', signers.foldlM (fun request signer => request.signSigAll env curve signer)
          request = .ok request' ∧
        checkSpendingConditions env now request' = .ok ()) ↔
      SignedSwapPasses env request first.secret key c (signers.map curve.xOf) := by
  let msg := request.sigAllMsgToSign
  let signed := first.addSignatures (signaturesOn env curve msg signers)
  let request' : SwapRequest := { request with inputs := signed :: rest }
  have hsigned : ∀ r, signers.foldlM (fun request signer => request.signSigAll env curve signer)
      request = .ok r ↔ r = request' := by
    intro r
    have hiff : swapRequests.signedBy env curve request signers = .ok r ↔ _ :=
      signedBy_eq_ok hin lock signers
    exact hiff.trans (and_iff_right hmem)
  have hsecret : signed.secret = first.secret := Proof.addSignatures_secret _ _
  have hsecrets : (signed :: rest).map Proof.secret = (first :: rest).map Proof.secret := by
    rw [List.map_cons, List.map_cons, hsecret]
  have hmsg : request'.sigAllMsgToSign = msg :=
    swapRequests.message_withInputs request (signed :: rest) (hsecrets.trans (by rw [← hin]; rfl))
  have hp2pk := lock.isP2pk hkinds
  have hall : ∀ proof ∈ request'.inputs, ∃ key c, IsP2pk env proof.secret key c := by
    intro proof hproof
    refine ⟨key, c, hp2pk _ ?_⟩
    rw [← hsecrets]
    exact List.mem_map_of_mem hproof
  have hfirst : IsP2pk env first.secret key c := hp2pk _ List.mem_cons_self
  have hflag : ∃ proof ∈ request'.inputs, ∃ key c, IsP2pk env proof.secret key c ∧
      c.sigFlag = .sigAll :=
    ⟨signed, List.mem_cons_self, key, c, by rw [hsecret]; exact hfirst, lock.flag⟩
  have hlisted : ∀ signer ∈ signers, curve.publicKey signer.key ∈ listedKeys key c :=
    fun signer hs => mem_listedKeys.mpr (hmem signer hs)
  have hw' : first.witness = none := hw first (hin ▸ List.mem_cons_self)
  have hxs : signers.map curve.xOf ≠ [] ↔ signers ≠ [] := by
    rw [Ne, List.map_eq_nil_iff]
  simp only [hsigned, exists_eq_left, checkSpendingConditions_eq_ok hall, forall_prop_of_true hflag]
  rw [SwapRequest.verifySigAll, hmsg, verifySigAll_signed ideal lock hw', count_le_one_iff hmem,
    SignedSwapPasses, hxs, hin]
  constructor
  · rintro ⟨heach, hne, hnodup, -⟩
    obtain ⟨-, hif⟩ := (verifyP2pk_signedInput ideal hfirst hexp hw' hnd hlisted hle msg).mp
      (heach signed List.mem_cons_self)
    refine ⟨?_, hne, hnodup, ?_⟩
    · -- any other input has no signatures at all
      cases hrest : rest with
      | nil => rfl
      | cons other others =>
          have hother : other ∈ request'.inputs :=
            List.mem_cons_of_mem _ (hrest ▸ List.mem_cons_self)
          have hnone : other.witness = none := by
            apply hw
            rw [hin, hrest]
            exact List.mem_cons_of_mem _ List.mem_cons_self
          obtain ⟨key', c', hp⟩ := hall other hother
          exact absurd (heach other hother) (verifyP2pk_unsigned hp hnone)
    · split
      next hd =>
        rw [if_pos hd] at hif
        exact hif.2
      next hd =>
        rw [if_neg hd] at hif
        exact hif
  · rintro ⟨hone, hne, hnodup, hif⟩
    have hrest : rest = [] := by
      rw [List.length_cons] at hone
      exact List.eq_nil_of_length_eq_zero (by omega)
    refine ⟨?_, hne, hnodup, hle.trans (length_le_keysAt hnd hmem)⟩
    intro proof hproof
    have hproof' : proof = signed := by
      have : proof ∈ signed :: rest := hproof
      rw [hrest] at this
      exact List.mem_singleton.mp this
    rw [hproof']
    refine (verifyP2pk_signedInput ideal hfirst hexp hw' hnd hlisted hle msg).mpr ⟨hne, ?_⟩
    split
    next hd =>
      rw [if_pos hd] at hif
      exact ⟨hnodup, hif⟩
    next hd =>
      rw [if_neg hd] at hif
      exact hif

/-! ## A swap with an output -/

/-- Signatures are ideal and a hash tells the length of its bytes. -/
def ownedEnv : Env :=
  { (Env.ofSecrets [(mixedSecretText "P2PK", mixedSecret .p2pk)]).echo with
    sha256 := fun bytes => BitVec.ofNat 256 bytes.length }

def ownedConditions : Conditions where
  locktime := none
  pubkeys := none
  refundKeys := none
  numSigs := none
  sigFlag := .sigAll
  numSigsRefund := none

def ownedInput : Proof := bareProof (mixedSecretText "P2PK")

/-- One input of the owner and one output. -/
def ownedRequest : SwapRequest := ⟨[ownedInput], [⟨Amount.one, .v1 0, otherPoint⟩]⟩

def ownedSigners : List (Signer PublicKey) := echoSigners [evenPoint]

/-- The request that the owner has signed. -/
def ownedSigned : SwapRequest :=
  { ownedRequest with
    inputs := [ownedInput.addSignatures
      (signaturesOn ownedEnv echoCurve ownedRequest.sigAllMsgToSign ownedSigners)] }

theorem owned_lock : SigAllLock ownedEnv ownedInput.secret [] (mixedSecret .p2pk) evenPoint
    ownedConditions where
  parse := by decide +kernel
  kind := rfl
  data := by decide +kernel
  tags := by decide +kernel
  flag := rfl
  shared := by simp

theorem owned_not_expired : ¬ Expired 1700000000 ownedConditions := by
  rintro ⟨locktime, hl, -⟩
  cases hl

theorem owned_authorized : ∀ signer ∈ ownedSigners,
    echoCurve.publicKey signer.key ∈ authorizedKeys evenPoint ownedConditions := by
  intro signer hs
  rw [List.mem_singleton.mp hs]
  decide

theorem ownedEnv_ideal : echoCurve.Ideal ownedEnv :=
  echo_ideal { ownedEnv with verifySchnorr := fun _ _ _ => false }

/-- The owner's signature on the request does not count for the input. -/
theorem signedSwap_refused :
    SigAllLock ownedEnv ownedInput.secret [] (mixedSecret .p2pk) evenPoint ownedConditions ∧
      ¬ Expired 1700000000 ownedConditions ∧
      (∀ signer ∈ ownedSigners,
        echoCurve.publicKey signer.key ∈ authorizedKeys evenPoint ownedConditions) ∧
      ownedConditions.numSigs.getD 1 ≤ ownedSigners.length ∧
      ownedSigners.foldlM (fun request signer => request.signSigAll ownedEnv echoCurve signer)
        ownedRequest = .ok ownedSigned ∧
      ownedSigned.verifySigAll ownedEnv = .ok () ∧
      checkSpendingConditions ownedEnv 1700000000 ownedSigned =
        .err (.nut11 .spendConditionsNotMet) := by
  refine ⟨owned_lock, owned_not_expired, owned_authorized, by decide, ?_, ?_, ?_⟩
  · decide +kernel
  · decide +kernel
  · decide +kernel

theorem signedSwap_passes_iff_at_owned :
    (∃ request', ownedSigners.foldlM
          (fun request signer => request.signSigAll ownedEnv echoCurve signer) ownedRequest =
            .ok request' ∧
        checkSpendingConditions ownedEnv 1700000000 request' = .ok ()) ↔
      SignedSwapPasses ownedEnv ownedRequest ownedInput.secret evenPoint ownedConditions
        (ownedSigners.map echoCurve.xOf) := by
  refine signedSwap_passes_iff ownedEnv echoCurve ownedEnv_ideal 1700000000 ownedRequest
    ownedInput [] (mixedSecret .p2pk) evenPoint ownedConditions rfl owned_lock (by simp)
    owned_not_expired ?_ ownedSigners ?_ owned_authorized (by decide)
  · intro proof hproof
    rw [List.mem_singleton.mp hproof]
    rfl
  · exact List.nodup_singleton _

end Cdk
