import Cdk.Nuts.SigAll

/-!
# The refund path of SIG_ALL

A condition with a locktime that has passed is spent by its refund keys, or by
anyone when it names none; the check of a single proof does so. The check of a
whole request never looks at the locktime. A request that only refund keys have
signed therefore passes exactly when these keys happen to be enough primary
keys as well.
-/

namespace Cdk

open Lib

variable {SecretKey : Type}

/-- The request with the signatures of the signers in the first input and nothing else there. -/
def SwapRequest.witnessedBy (env : Env) (curve : Curve SecretKey) (request : SwapRequest)
    (signers : List (Signer SecretKey)) : SwapRequest :=
  match request.inputs with
  | first :: rest =>
      let texts := (signaturesOn env curve request.sigAllMsgToSign signers).map Signature.toText
      { request with inputs := { first with witness := some (.p2pk ⟨texts⟩) } :: rest }
  | [] => request

/-- After the locktime enough refund keys unlock the request, and without refund keys the
primary keys are not needed. -/
def SwapRequest.RefundUnlocks (env : Env) (now : Nat) (key : PublicKey) (c : Conditions)
    (request : SwapRequest) : Prop :=
  Expired now c →
    (∀ refundKeys, c.refundKeys = some refundKeys → refundKeys ≠ [] →
      ∀ (SecretKey : Type) (curve : Curve SecretKey) (signers : List (Signer SecretKey)),
        curve.Ideal env → (signers.map fun signer => curve.publicKey signer.key).Nodup →
        (∀ signer ∈ signers, curve.publicKey signer.key ∈ refundKeys) →
        c.numSigsRefund.getD 1 ≤ signers.length →
          (request.witnessedBy env curve signers).verifySigAll env = .ok ()) ∧
    (c.refundKeys = none →
      ∀ (SecretKey : Type) (curve : Curve SecretKey) (signers : List (Signer SecretKey)),
        curve.Ideal env →
        (∀ signer ∈ signers, curve.xOf signer ∉ (authorizedKeys key c).map PublicKey.x) →
          (request.witnessedBy env curve signers).verifySigAll env = .ok ())

/-- Any refund keys that may unlock are enough primary keys, without two of them being one
primary key, and without refund keys no signature is asked for. -/
def RefundKeysPrimary (key : PublicKey) (c : Conditions) : Prop :=
  (∀ refundKeys, c.refundKeys = some refundKeys → refundKeys ≠ [] →
    ∀ signers : List PublicKey, signers.Nodup → signers ⊆ refundKeys →
      c.numSigsRefund.getD 1 ≤ signers.length →
        (∀ k ∈ authorizedKeys key c, (signers.map PublicKey.x).count k.x ≤ 1) ∧
        c.numSigs.getD 1 ≤ (keysAt (signers.map PublicKey.x) (authorizedKeys key c)).length) ∧
  (c.refundKeys = none → c.numSigs.getD 1 = 0)

section Refund

variable {env : Env} {curve : Curve SecretKey} {request : SwapRequest} {first : Proof}
variable {rest : List Proof} {secret : Nut10Secret} {key : PublicKey} {c : Conditions}

/-- The check of a request that carries only the signatures of the signers. -/
theorem verifySigAll_witnessedBy (ideal : curve.Ideal env) (hin : request.inputs = first :: rest)
    (lock : SigAllLock env first.secret (rest.map Proof.secret) secret key c)
    (signers : List (Signer SecretKey)) :
    (request.witnessedBy env curve signers).verifySigAll env = .ok () ↔
      (∀ k ∈ authorizedKeys key c, (signers.map curve.xOf).count k.x ≤ 1) ∧
        c.numSigs.getD 1 ≤ (keysAt (signers.map curve.xOf) (authorizedKeys key c)).length := by
  let texts := (signaturesOn env curve request.sigAllMsgToSign signers).map Signature.toText
  let signed : Proof := { first with witness := some (.p2pk ⟨texts⟩) }
  have hreq : request.witnessedBy env curve signers =
      { request with inputs := signed :: rest } := by
    simp only [SwapRequest.witnessedBy, hin, signed, texts]
  have hmsg : SwapRequest.sigAllMsgToSign { request with inputs := signed :: rest } =
      request.sigAllMsgToSign := by
    simp only [SwapRequest.sigAllMsgToSign, hin, List.map_cons, signed]
  have lock' : SigAllLock env signed.secret (rest.map Proof.secret) secret key c := lock
  rw [SwapRequest.verifySigAll, hreq, hmsg]
  exact verifySigAll_of_texts ideal lock' rfl

end Refund

/-- For every swap request with one P2PK condition of SIG_ALL whose locktime has passed: it is
unlocked like a single proof, for all signature oracles, exactly when its refund keys are enough
primary keys as well. -/
theorem swap_refundUnlocks_iff (env : Env) (now : Nat) (request : SwapRequest) (first : Proof)
    (rest : List Proof) (secret : Nut10Secret) (key : PublicKey) (c : Conditions)
    (hin : request.inputs = first :: rest)
    (lock : SigAllLock env first.secret (rest.map Proof.secret) secret key c)
    (hexp : Expired now c) :
    (∀ schnorr, request.RefundUnlocks { env with verifySchnorr := schnorr } now key c) ↔
      RefundKeysPrimary key c := by
  have lock' : ∀ schnorr, SigAllLock { env with verifySchnorr := schnorr } first.secret
      (rest.map Proof.secret) secret key c := fun _ =>
    ⟨lock.parse, lock.kind, lock.data, lock.tags, lock.flag, lock.shared⟩
  constructor
  · intro h
    have hpath : request.RefundUnlocks env.echo now key c := h env.echo.verifySchnorr
    have hlock : SigAllLock env.echo first.secret (rest.map Proof.secret) secret key c := lock' _
    have hverify := verifySigAll_witnessedBy (echo_ideal env) hin hlock
    constructor
    · intro refundKeys hr hne signers hnd hsub hle
      have hok := (hpath hexp).1 refundKeys hr hne PublicKey echoCurve (echoSigners signers)
        (echo_ideal env) (by rwa [publicKey_echoSigners])
        (fun _ hs => hsub (publicKey_mem_of_echoSigners hs)) (by simpa [echoSigners] using hle)
      rw [hverify, xOf_echoSigners] at hok
      exact hok
    · intro hnone
      have hok := (hpath hexp).2 hnone PublicKey echoCurve [] (echo_ideal env) (by simp)
      rw [hverify] at hok
      simpa [keysAt] using hok.2
  · rintro ⟨hrefund, hopen⟩ schnorr _
    constructor
    · intro refundKeys hr hne SecretKey curve signers ideal hnd hsub hle
      rw [verifySigAll_witnessedBy ideal hin (lock' schnorr)]
      rw [map_xOf]
      apply hrefund refundKeys hr hne _ hnd
      · intro k hk
        obtain ⟨signer, hs, rfl⟩ := List.mem_map.mp hk
        exact hsub signer hs
      · rwa [List.length_map]
    · intro hnone SecretKey curve signers ideal hforeign
      rw [verifySigAll_witnessedBy ideal hin (lock' schnorr), hopen hnone]
      refine ⟨?_, Nat.zero_le _⟩
      intro k hk
      rw [List.count_eq_zero.mpr]
      · exact Nat.zero_le 1
      · intro hx
        obtain ⟨signer, hs, hsx⟩ := List.mem_map.mp hx
        exact hforeign signer hs (by rw [hsx]; exact List.mem_map_of_mem hk)

/-! ## A refund that is refused -/

/-- A secret with SIG_ALL whose locktime was in 2020, to be refunded to another key. -/
def lapsedSecret : Nut10Secret :=
  ⟨.p2pk, ⟨"da62796403af76c80cd6ce9153ed3746",
    "026562efcfadc8e86d44da6a8adf80633d974302e62c850774db1fb36ff4cc7198",
    some [["locktime", "1600000000"],
      ["refund", "02194603ffa36356f4a56b7df9371fc3192472351453ec7398b8da8117e7c3e104"],
      ["sigflag", "SIG_ALL"]]⟩⟩

def lapsedSecretText : String := "[\"P2PK\",\x7b\"nonce\":\"da62796403af76c80cd6ce9153ed3746\"," ++
  "\"data\":\"026562efcfadc8e86d44da6a8adf80633d974302e62c850774db1fb36ff4cc7198\"," ++
  "\"tags\":[[\"locktime\",\"1600000000\"],[\"refund\"," ++
  "\"02194603ffa36356f4a56b7df9371fc3192472351453ec7398b8da8117e7c3e104\"]," ++
  "[\"sigflag\",\"SIG_ALL\"]]\x7d]"

def lapsedConditions : Conditions where
  locktime := some 1600000000
  pubkeys := none
  refundKeys := some [otherPoint]
  numSigs := none
  sigFlag := .sigAll
  numSigsRefund := none

def lapsedEnv : Env := (Env.ofSecrets [(lapsedSecretText, lapsedSecret)]).echo

def lapsedRequest : SwapRequest := ⟨[bareProof lapsedSecretText], []⟩

theorem lapsed_lock :
    SigAllLock lapsedEnv (bareProof lapsedSecretText).secret [] lapsedSecret evenPoint
      lapsedConditions where
  parse := by
    simp only [lapsedEnv, Env.echo, Env.ofSecrets, bareProof, List.lookup_cons_self]
  kind := rfl
  data := by decide +kernel
  tags := by decide +kernel
  flag := rfl
  shared := by simp

theorem lapsed_expired : Expired 1700000000 lapsedConditions := ⟨1600000000, rfl, by decide⟩

/-- The refund key has signed after the locktime, and the check still asks for the data key. -/
theorem verifySigAll_refund_refused :
    SigAllLock lapsedEnv (bareProof lapsedSecretText).secret [] lapsedSecret evenPoint
        lapsedConditions ∧
      Expired 1700000000 lapsedConditions ∧
      (lapsedRequest.witnessedBy lapsedEnv echoCurve (echoSigners [otherPoint])).verifySigAll
        lapsedEnv = .err .spendConditionsNotMet ∧
      ¬ lapsedRequest.RefundUnlocks lapsedEnv 1700000000 evenPoint lapsedConditions := by
  have herr : (lapsedRequest.witnessedBy lapsedEnv echoCurve
      (echoSigners [otherPoint])).verifySigAll lapsedEnv = .err .spendConditionsNotMet := by
    decide +kernel
  refine ⟨lapsed_lock, lapsed_expired, herr, ?_⟩
  intro h
  have hok := (h lapsed_expired).1 [otherPoint] rfl (by simp) PublicKey echoCurve
    (echoSigners [otherPoint]) (echo_ideal _) (by rw [publicKey_echoSigners]; simp)
    (fun _ => publicKey_mem_of_echoSigners) (by decide)
  rw [herr] at hok
  cases hok

theorem swap_refundUnlocks_iff_at_lapsed :
    (∀ schnorr, lapsedRequest.RefundUnlocks { lapsedEnv with verifySchnorr := schnorr } 1700000000
        evenPoint lapsedConditions) ↔
      RefundKeysPrimary evenPoint lapsedConditions :=
  swap_refundUnlocks_iff lapsedEnv 1700000000 lapsedRequest (bareProof lapsedSecretText) []
    lapsedSecret evenPoint lapsedConditions rfl lapsed_lock lapsed_expired

end Cdk
