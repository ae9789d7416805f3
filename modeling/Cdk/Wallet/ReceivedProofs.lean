import Cdk.Wallet.FreshSecrets
import Cdk.Wallet.Receive

/-!
# Receiving proofs into the store

Received proofs are signed and stored as pending, swapped for new ones, and
removed when the new ones are stored. If the swap fails they stay, pending or
reserved.
-/

namespace Cdk

open Lib

namespace Wallet

open Selection (worth)

variable {SecretKey : Type}

/-- Errors of `receive_proofs`. -/
inductive ReceiveProofsError where
  | wallet (error : Error)
  | signing (error : ReceiveError)
deriving DecidableEq, Repr

/-- The arguments of `receive_proofs`. -/
structure ReceiveCall (SecretKey : Type) where
  proofs : List WalletProof
  opts : ReceiveOptions SecretKey
  amountSplitTarget : Counters.SplitTarget

/-- What a call of `receive_proofs` is given from outside: how it signs, the keys of keysets, the
check of the DLEQ proofs and the answer to its swap. -/
structure ReceiveReplies (SecretKey : Type) where
  curve : Curve SecretKey
  aux : Nat → Nat → BitVec 256
  loadKeysetKeys : Id → Outcome Error (Amount → Option PublicKey)
  verifyDleqs : List WalletProof → Outcome Error Unit
  postSwap : PostedSwap → Outcome Error (List BlindSignature)

/-- What is known before received proofs are stored. -/
structure Received where
  keysetId : Id
  keys : Amount → Option PublicKey
  proofsAmount : Amount
  proofs : List Proof
  sigAll : Bool
  infos : List ProofInfo

section Operations

variable (w : Wallet) (replies : ReceiveReplies SecretKey) (call : ReceiveCall SecretKey)

/-- `Wallet::receive_proofs` before the proofs are stored. -/
def beforeStoring : Outcome ReceiveProofsError Received := do
  let _ ← w.refreshKeysets.mapErr .wallet
  let activeKeysetId ← w.fetchActiveKeyset.mapErr .wallet
  let keys ← (replies.loadKeysetKeys activeKeysetId).mapErr .wallet
  let proofs := call.proofs.map WalletProof.toProof
  let proofsAmount ← (total proofs).mapErr .wallet
  let _proofsYs ← (w.ys proofs).mapErr .wallet
  let _ ← (replies.verifyDleqs call.proofs).mapErr .wallet
  let received ← (call.opts.signProofs w.env replies.curve replies.aux proofs).mapErr .signing
  let signed := received.map Prod.fst
  let infos ← (signed.mapM (w.proofInfo .pending)).mapErr .wallet
  .ok ⟨activeKeysetId, keys, proofsAmount, signed, received.any fun entry => entry.2 = .sigAll,
    infos⟩

/-- The swap of received proofs, which asks for no amount. -/
def ReceiveCall.swapCall (received : Received) : SwapCall :=
  ⟨none, call.amountSplitTarget, received.proofs, none, false⟩

/-- What it does behind that, up to the entries of the new proofs. -/
def swapReceived (received : Received) : Proc Store Error (Amount × List ProofInfo) := do
  let preSwap ← w.createSwap (call.swapCall received)
  let outputs := call.opts.signOutputs w.env replies.curve replies.aux received.proofs.length
    received.sigAll preSwap.swapRequest.outputs
  let signatures ← .lift (replies.postSwap ⟨received.proofs, outputs⟩)
  let recvProofs ← .lift (w.constructProofs signatures (preSwap.preMints.map PreMint.r)
    (preSwap.preMints.map PreMint.secret) received.keys)
  let _ ← Proc.transact
    (Store.incrementKeysetCounter received.keysetId (Counters.asU32 recvProofs.length))
  let totalAmount ← .lift (total recvProofs)
  let recvInfos ← .lift (recvProofs.mapM (w.proofInfo .unspent))
  pure (totalAmount, recvInfos)

/-- What it does behind that. The fee is worked out for the transaction, and panics below zero. -/
def behindStoring (received : Received) : Proc Store Error Amount := do
  let (totalAmount, recvInfos) ← w.swapReceived replies call received
  Proc.write (Store.updateProofs recvInfos (received.infos.map ProofInfo.y))
  let _fee ← .lift (received.proofsAmount.sub totalAmount)
  pure totalAmount

/-- `Wallet::receive_proofs`. -/
def receiveProofs : Proc Store ReceiveProofsError Amount := do
  let received ← .lift (w.beforeStoring replies call)
  Proc.write (Store.updateProofs received.infos [])
  Proc.mapErr .wallet (w.behindStoring replies call received)

end Operations

/-! ## What becomes of the balance -/

section Balance

variable {w : Wallet} {replies : ReceiveReplies SecretKey} {call : ReceiveCall SecretKey}
  {received : Received} {info : ProofInfo} {s s' : Store}

/-- Received proofs are stored as pending under their points. -/
structure Storable (w : Wallet) (received : Received) : Prop where
  fetched : w.fetchActiveKeyset = .ok received.keysetId
  ys : w.ys received.proofs = .ok (received.infos.map ProofInfo.y)
  pending : ∀ info ∈ received.infos, info.state = .pending
  filed : ∀ info ∈ received.infos, info.proof.toProof.y w.env = some info.y

theorem ys_of_infos_ok {proofs : List Proof} {state : State} {infos : List ProofInfo}
    (h : proofs.mapM (w.proofInfo state) = .ok infos) :
    w.ys proofs = .ok (infos.map ProofInfo.y) := by
  induction proofs generalizing infos with
  | nil =>
      cases h
      rfl
  | cons p rest ih =>
      simp only [List.mapM_cons, Outcome.bind_eq_ok, Outcome.pure_eq, Outcome.ok.injEq] at h
      obtain ⟨first, hfirst, others, hothers, rfl⟩ := h
      have hrest := ih hothers
      rw [Wallet.ys] at hrest ⊢
      rw [List.mapM_cons, (proofInfo_eq_ok hfirst).1, Outcome.ofOption_some, Outcome.bind_ok, hrest]
      rfl

theorem storable_of_beforeStoring (h : w.beforeStoring replies call = .ok received) :
    w.Storable received := by
  simp only [beforeStoring, Outcome.bind_eq_ok, Outcome.mapErr_eq_ok, Outcome.ok.injEq] at h
  obtain ⟨_, -, id, hid, keys, -, _, -, _, -, _, -, signed, -, infos, hinfos, rfl⟩ := h
  refine ⟨hid, ys_of_infos_ok hinfos, fun info hinfo => ?_, fun info hinfo => ?_⟩
  · obtain ⟨p, -, hmade⟩ := Outcome.exists_of_mem_mapM hinfos hinfo
    exact (proofInfo_eq_ok hmade).2.2.2
  · obtain ⟨p, -, hmade⟩ := Outcome.exists_of_mem_mapM hinfos hinfo
    exact (proofInfo_eq_ok hmade).2.1 ▸ (proofInfo_eq_ok hmade).1

/-- Up to the new entries the received proofs are reserved, or stay as they were stored. -/
theorem proofs_swapReceived (hstorable : w.Storable received) :
    (w.swapReceived replies call received s).2.proofs = s.proofs ∨
      (w.swapReceived replies call received s).2.proofs =
        (s.updateProofsState (received.infos.map ProofInfo.y) .reserved).proofs := by
  have hafter : (w.swapReceived replies call received s).2.proofs =
      (w.createSwap (call.swapCall received) s).2.proofs := by
    apply Proc.Keeps.after
    intro preSwap
    apply Proc.Keeps.bind (Proc.Keeps.lift _)
    intro signatures
    apply Proc.Keeps.bind (Proc.Keeps.lift _)
    intro recvProofs
    apply Proc.Keeps.bind (keeps_proofs_increment _ _)
    intro _
    apply Proc.Keeps.bind (Proc.Keeps.lift _)
    intro totalAmount
    apply Proc.Keeps.bind (Proc.Keeps.lift _)
    intro recvInfos
    exact Proc.Keeps.pure _
  rw [hafter]
  by_cases hbefore : ∃ entry, w.beforeReserving (call.swapCall received) = .ok entry
  · obtain ⟨⟨id, proofsTotal, ys⟩, hbefore⟩ := hbefore
    cases (beforeReserving_spec hbefore).2.2.symm.trans hstorable.ys
    rw [createSwap_eq hbefore]
    exact .inr (keeps_proofs_behindReserving w _ id proofsTotal _)
  · refine .inl (congrArg Store.proofs (Proc.aborts_lift_bind fun entry hentry => ?_ :
      Proc.Aborts (w.createSwap (call.swapCall received)) s).1)
    exact absurd ⟨entry, hentry⟩ hbefore

/-- Storing the received proofs takes those of the same points out of the balance. -/
theorem mem_unspentInfos_stored (hstorable : w.Storable received) :
    info ∈ w.unspentInfos (s.updateProofs received.infos []) ↔
      info ∈ w.unspentInfos s ∧ info.y ∉ received.infos.map ProofInfo.y := by
  apply mem_unspentInfos_pending
  intro i hi
  rw [Bool.eq_false_iff]
  intro h
  have hstate := (isUnspent_iff.mp h).2.2
  rw [hstorable.pending i hi] at hstate
  cases hstate

/-- A swap of received proofs adds none of them to the balance. -/
theorem mem_unspentInfos_swapReceived (hstorable : w.Storable received) :
    info ∈ w.unspentInfos
        (w.swapReceived replies call received (s.updateProofs received.infos [])).2 ↔
      info ∈ w.unspentInfos s ∧ info.y ∉ received.infos.map ProofInfo.y := by
  rcases @proofs_swapReceived _ w replies call received (s.updateProofs received.infos [])
    hstorable with hproofs | hproofs
  · rw [unspentInfos_congr hproofs, mem_unspentInfos_stored hstorable]
  · have hstate : State.reserved ≠ .unspent := by decide
    rw [unspentInfos_congr hproofs, mem_unspentInfos_mark hstate,
      mem_unspentInfos_stored hstorable, and_assoc, and_self]

/-- A call that returns an error adds nothing to the balance, and takes out of it the proofs that it
has stored as pending. -/
theorem mem_unspentInfos_of_failed {e : ReceiveProofsError}
    (h : w.receiveProofs replies call s = (.err e, s')) :
    info ∈ w.unspentInfos s' ↔ info ∈ w.unspentInfos s ∧
      ∀ received, w.beforeStoring replies call = .ok received →
        info.y ∉ received.infos.map ProofInfo.y := by
  cases hreceived : w.beforeStoring replies call with
  | err e =>
      rw [receiveProofs, Proc.lift_bind_of_err hreceived] at h
      cases h
      simp
  | panic =>
      rw [receiveProofs, Proc.lift_bind_of_panic hreceived] at h
      cases h
  | ok received =>
      rw [receiveProofs, Proc.lift_bind_of_ok hreceived, Proc.bind_of_ok (Proc.write_run _ _)] at h
      have hswap := @mem_unspentInfos_swapReceived _ w replies call received info s
        (storable_of_beforeStoring hreceived)
      suffices hsame : s' = (w.swapReceived replies call received
          (s.updateProofs received.infos [])).2 by
        rw [hsame, hswap]
        simp
      -- behind the new entries the call does not return an error any more
      obtain ⟨hresult, hstore⟩ := Prod.ext_iff.mp h
      change (w.behindStoring replies call received _).2 = s' at hstore
      change ((w.behindStoring replies call received _).1).mapErr _ = .err e at hresult
      rw [← hstore]
      unfold behindStoring at hresult ⊢
      rcases hrun : w.swapReceived replies call received (s.updateProofs received.infos []) with
        ⟨⟨totalAmount, recvInfos⟩ | e' | _, s₁⟩
      · rw [Proc.bind_of_ok hrun] at hresult
        dsimp only at hresult
        rw [Proc.bind_of_ok (Proc.write_run _ _)] at hresult
        cases hfee : (received.proofsAmount.sub totalAmount : Outcome Error Amount) with
        | ok fee =>
            rw [Proc.lift_bind_of_ok hfee] at hresult
            cases hresult
        | panic =>
            rw [Proc.lift_bind_of_panic hfee] at hresult
            cases hresult
        | err e' =>
            rw [Amount.sub] at hfee
            cases hsub : received.proofsAmount.checkedSub totalAmount <;> rw [hsub] at hfee <;>
              cases hfee
      · rw [Proc.bind_of_err hrun]
      · rw [Proc.bind_of_panic hrun]

theorem isUnspent_of_proofInfo {proof : Proof} (h : w.proofInfo .unspent proof = .ok info) :
    w.isUnspent info = true := by
  simp only [proofInfo, Outcome.bind_eq_ok, Outcome.ok.injEq] at h
  obtain ⟨y, -, conditions, -, rfl⟩ := h
  exact isUnspent_iff.mpr ⟨rfl, rfl, rfl⟩

/-- What a call that returns an amount has done. -/
structure Receives (w : Wallet) (call : ReceiveCall SecretKey) (received : Received) (s : Store)
    (totalAmount : Amount) (recvInfos : List ProofInfo) (s' : Store) : Prop where
  ahead : w.Ahead s'
  balance : ∀ info, info ∈ w.unspentInfos s' ↔
    info ∈ recvInfos ∨ info ∈ w.unspentInfos s ∧ info.y ∉ received.infos.map ProofInfo.y
  total : totalAmount.toNat = Amount.total (recvInfos.map fun info => info.proof.amount)
  parts : ∃ parts, w.swapParts (call.swapCall received) (s.updateProofs received.infos []) =
    .ok parts ∧ totalAmount.toNat = Amount.total parts.changeParts

/-- A swap that asks for no amount sends nothing. -/
theorem sendAmount_of_swapParts {swapCall : SwapCall} {parts : SwapParts}
    (hnone : swapCall.amount = none) (h : w.swapParts swapCall s = .ok parts) :
    parts.sendAmount = none := by
  simp only [swapParts, Outcome.bind_eq_ok, Outcome.ok.injEq] at h
  obtain ⟨⟨id, _, _⟩, -, _, -, _, -, _, -, ⟨sendAmount, left⟩, hsend, _, -, _, -, _, -, rfl⟩ := h
  obtain ⟨redeem, -, -, hsent, -⟩ := sendAndChange_spec hsend
  exact (hsent hnone).1

/-- Stored with the received proofs, the counters are still ahead. -/
theorem ahead_stored (hahead : w.Ahead s) (hstorable : w.Storable received)
    (hforeign : ∀ info ∈ received.infos, w.Behind s info.y) :
    w.Ahead (s.updateProofs received.infos []) := by
  refine ⟨fun row hrow => ?_, fun row hrow => ?_⟩
  · rcases mem_exchange hrow with hnew | ⟨hold, -⟩
    · exact hstorable.filed row hnew
    · exact hahead.filed row hold
  · rcases mem_exchange hrow with hnew | ⟨hold, -⟩
    · exact hforeign row hnew
    · exact hahead.behind row hold

theorem receives (hinj : w.Injective) (hahead : w.Ahead s)
    (hsigned : ∀ posted signatures, replies.postSwap posted = .ok signatures →
      signatures.map BlindSignature.amount = posted.request.outputs.map BlindedMessage.amount)
    (hreceived : w.beforeStoring replies call = .ok received)
    (hforeign : ∀ info ∈ received.infos, w.Behind s info.y) {totalAmount : Amount}
    (h : w.receiveProofs replies call s = (.ok totalAmount, s')) :
    ∃ recvInfos, Receives w call received s totalAmount recvInfos s' := by
  have hstorable := storable_of_beforeStoring hreceived
  have hstored := ahead_stored hahead hstorable hforeign
  have hbalance (info : ProofInfo) :=
    @mem_unspentInfos_swapReceived _ w replies call received info s hstorable
  rw [receiveProofs, Proc.lift_bind_of_ok hreceived, Proc.bind_of_ok (Proc.write_run _ _),
    Proc.mapErr_ok, behindStoring, Proc.bind_ok] at h
  obtain ⟨⟨_, recvInfos⟩, s₁, hswap, h⟩ := h
  dsimp only at h
  rw [Proc.bind_of_ok (Proc.write_run _ _), Proc.lift_bind_ok] at h
  obtain ⟨_, -, h⟩ := h
  cases h
  have hproofs : (w.swapReceived replies call received (s.updateProofs received.infos [])).2 = s₁ :=
    congrArg Prod.snd hswap
  rw [swapReceived, Proc.bind_ok] at hswap
  obtain ⟨preSwap, s₂, hpre, hswap⟩ := hswap
  simp only [Proc.lift_bind_ok] at hswap
  obtain ⟨signatures, hsignatures, recvProofs, hrecvProofs, hswap⟩ := hswap
  rw [Proc.bind_ok] at hswap
  obtain ⟨newCounter, s₃, hcounter, hswap⟩ := hswap
  simp only [Proc.lift_bind_ok] at hswap
  obtain ⟨_, htotal, _, hrecvInfos, hswap⟩ := hswap
  cases hswap
  have hincremented := (incremented hcounter).2
  obtain ⟨hamounts, -, hsecrets⟩ := constructProofs_spec hrecvProofs
  -- the new proofs have points that were taken for them
  have htaken := taken_createSwap rfl hpre
  obtain ⟨hnodup, hpoints⟩ := htaken.entries hinj
    (hsecrets ▸ List.Subperm.refl _) (ys_of_infos hrecvInfos)
  have hmono (id : Id) : s₂.counters id ≤ s₁.counters id := hincremented.mono id
  have hgrows : w.Grows (s.updateProofs received.infos []) s₁ :=
    (grows_createSwap rfl hpre).trans (Grows.of_proofs hincremented.proofs hmono)
  have hentry (info : ProofInfo) (hinfo : info ∈ recvInfos) :
      w.isUnspent info = true ∧ info.proof.toProof.y w.env = some info.y := by
    obtain ⟨p, -, hmade⟩ := Outcome.exists_of_mem_mapM hrecvInfos hinfo
    exact ⟨isUnspent_of_proofInfo hmade, (proofInfo_eq_ok hmade).2.1 ▸ (proofInfo_eq_ok hmade).1⟩
  have hrow (row : ProofInfo) (hrow : row ∈ s₁.proofs.rows) :
      ∃ before ∈ (s.updateProofs received.infos []).proofs.rows, before.y = row.y := by
    rw [← hproofs] at hrow
    rcases @proofs_swapReceived _ w replies call received (s.updateProofs received.infos [])
      hstorable with hsame | hmarked
    · exact ⟨row, hsame ▸ hrow, rfl⟩
    · rw [hmarked] at hrow
      obtain ⟨before, hbefore, hy, -⟩ := mem_mark hrow
      exact ⟨before, hbefore, hy⟩
  have hfresh (info : ProofInfo) (hinfo : info ∈ recvInfos) {y : PublicKey}
      (hbehind : w.Behind (s.updateProofs received.infos []) y) : y ≠ info.y :=
    (hpoints info hinfo).ne hbehind
  refine ⟨recvInfos, ?_, fun info => ?_, ?_, ?_⟩
  · apply hstored.grows hinj
    exact hgrows.exchange fun info hinfo =>
      ⟨(hentry info hinfo).2, (hpoints info hinfo).mono hmono⟩
  · rw [mem_unspentInfos_new hnodup, ← hproofs, hbalance, and_assoc, and_self]
    · exact or_congr_left (and_iff_left_of_imp fun hinfo => (hentry info hinfo).1)
    · intro i hi row hmem
      obtain ⟨before, hbefore, hy⟩ := hrow row hmem
      exact hy ▸ hfresh i hi (hstored.behind before hbefore)
    · intro i hi hmem
      obtain ⟨info', hinfo', hy⟩ := List.mem_map.mp hmem
      exact hfresh i hi (hforeign info' hinfo') hy
  · rw [total_eq_ok.mp htotal, worth]
    exact congrArg Amount.total
      (Outcome.map_of_mapM hrecvInfos fun p info hmade =>
        congrArg Proof.amount (proofInfo_eq_ok hmade).2.1).symm
  · obtain ⟨parts, hparts, hcreated⟩ := created_of_createSwap rfl hpre
    refine ⟨parts, hparts, ?_⟩
    have hrequested : preSwap.swapRequest.outputs.map BlindedMessage.amount =
        preSwap.preMints.map PreMint.amount := by
      rw [hcreated.requested, List.map_map]
      exact List.map_congr_left fun p hp => (hcreated.seeded p hp).message
    have hsigned := hsigned _ _ hsignatures
    rw [PostedSwap.request, messages_signOutputs, hrequested] at hsigned
    have hsend := hcreated.sendParts
    rw [sendAmount_of_swapParts rfl hparts] at hsend
    have hnothing : Amount.total parts.sendParts = 0 := Nat.le_zero.mp hsend
    rw [total_eq_ok.mp htotal, worth, hamounts, hsigned, Amount.total_perm hcreated.perm,
      Amount.total_append, hnothing, Nat.zero_add]

end Balance

end Wallet

end Cdk
