import Cdk.Mint.SigAllSwap

/-!
# Receiving locked proofs

The wallet signs every received proof with the private keys it was given and
posts a swap of the proofs for fresh outputs. It signs once for each entry of
the key list of a proof, so an entry that is repeated is signed for twice. When
a proof has SIG_ALL it signs the outputs one by one and never the message of
the request.
-/

namespace Cdk

open Lib

variable {SecretKey : Type}

/-- Errors of `receive_proofs` before the swap is posted. -/
inductive ReceiveError where
  | hex (error : HexError)
  | nut01
  | preimageNotProvided
deriving DecidableEq, Repr

/-- `ReceiveOptions` as far as it decides what is signed. -/
structure ReceiveOptions (SecretKey : Type) where
  p2pkSigningKeys : List SecretKey
  preimages : List String

/-- An output with its own witness. -/
structure SignedOutput where
  message : BlindedMessage
  witness : Option Witness
deriving DecidableEq, Repr

/-- `BlindedMessage::sign_p2pk`. -/
def SignedOutput.signP2pk (env : Env) (curve : Curve SecretKey) (signer : Signer SecretKey)
    (output : SignedOutput) : SignedOutput :=
  let text := (curve.sign env signer output.message.blindedSecret.toBytes).toText
  { output with witness := some ((output.witness.getD (.p2pk ⟨[]⟩)).addSignatures [text]) }

/-- The swap that the wallet posts. -/
structure PostedSwap where
  inputs : List Proof
  outputs : List SignedOutput
deriving DecidableEq, Repr

/-- What the mint checks of it. -/
def PostedSwap.request (posted : PostedSwap) : SwapRequest :=
  ⟨posted.inputs, posted.outputs.map SignedOutput.message⟩

namespace ReceiveOptions

variable (env : Env) (curve : Curve SecretKey) (opts : ReceiveOptions SecretKey)

/-- The map from hashes to preimages, with the later entries first. -/
def hashedToPreimage : Outcome ReceiveError (List (String × String)) := do
  let entries ← opts.preimages.mapM fun preimage => do
    let bytes ← (hexDecode preimage).mapErr ReceiveError.hex
    .ok (sha256Text (env.sha256 bytes), preimage)
  .ok entries.reverse

/-- The map from `x` coordinates to signing keys; of several keys the last one counts. -/
def signingKey (x : BitVec 256) : Option SecretKey :=
  opts.p2pkSigningKeys.reverse.find? fun key => (curve.publicKey key).x = x

/-- The signing keys of the map, one for each `x` coordinate. -/
def signingKeys : List SecretKey :=
  (opts.p2pkSigningKeys.map fun key => (curve.publicKey key).x).dedup.filterMap
    (opts.signingKey curve)

/-- Sign a proof once for each listed key whose private key is held. -/
def signListed (aux : Nat → BitVec 256) (pubkeys : List PublicKey) (proof : Proof) : Proof :=
  pubkeys.zipIdx.foldl (fun proof entry =>
    match opts.signingKey curve entry.1.x with
    | some key => proof.signP2pk env curve ⟨key, aux entry.2⟩
    | none => proof) proof

/-- One round of the loop over the proofs: the signed proof and the flag it asks for. -/
def receiveProof (preimages : List (String × String)) (aux : Nat → BitVec 256) (proof : Proof) :
    Outcome ReceiveError (Proof × SigFlag) :=
  match env.parseSecret proof.secret with
  | none => .ok (proof, .sigInputs)
  | some secret => do
      let conditions ← (Conditions.tryFrom env (secret.secretData.tags.getD [])).toOption
      match conditions with
      | none => .ok (proof, .sigInputs)
      | some c => do
          let listed := c.pubkeys.getD []
          match secret.kind with
          | .p2pk => do
              let key ← Outcome.ofOption .nut01 (env.parsePublicKey secret.secretData.data)
              .ok (opts.signListed env curve aux (listed ++ [key]) proof, c.sigFlag)
          | .htlc => do
              let preimage ← Outcome.ofOption .preimageNotProvided
                (preimages.lookup secret.secretData.data)
              .ok (opts.signListed env curve aux listed (proof.addPreimage preimage), c.sigFlag)

/-- `Wallet::receive_proofs` up to the posted swap, for the outputs that `create_swap` draws. -/
def receiveProofs (aux : Nat → Nat → BitVec 256) (proofs : List Proof)
    (outputs : List BlindedMessage) : Outcome ReceiveError PostedSwap := do
  let preimages ← opts.hashedToPreimage env
  let received ← proofs.zipIdx.mapM fun entry =>
    opts.receiveProof env curve preimages (aux entry.2) entry.1
  let fresh : List SignedOutput := outputs.map fun message => ⟨message, none⟩
  let signed := if received.any fun entry => entry.2 = .sigAll then
      fresh.zipIdx.map fun output => (opts.signingKeys curve).zipIdx.foldl (fun signed entry =>
        signed.signP2pk env curve ⟨entry.1, aux (proofs.length + output.2) entry.2⟩) output.1
    else fresh
  .ok ⟨received.map Prod.fst, signed⟩

/-- The proofs with what they are signed with, and the flags they ask for. -/
def signProofs (aux : Nat → Nat → BitVec 256) (proofs : List Proof) :
    Outcome ReceiveError (List (Proof × SigFlag)) := do
  let preimages ← opts.hashedToPreimage env
  proofs.zipIdx.mapM fun entry => opts.receiveProof env curve preimages (aux entry.2) entry.1

/-- The outputs, which are signed one by one if a proof asks for it. -/
def signOutputs (aux : Nat → Nat → BitVec 256) (proofs : Nat) (sigAll : Bool)
    (outputs : List BlindedMessage) : List SignedOutput :=
  let fresh : List SignedOutput := outputs.map fun message => ⟨message, none⟩
  if sigAll then
    fresh.zipIdx.map fun output => (opts.signingKeys curve).zipIdx.foldl (fun signed entry =>
      signed.signP2pk env curve ⟨entry.1, aux (proofs + output.2) entry.2⟩) output.1
  else fresh

/-- Both make the swap that is posted. -/
theorem receiveProofs_eq (aux : Nat → Nat → BitVec 256) (proofs : List Proof)
    (outputs : List BlindedMessage) :
    opts.receiveProofs env curve aux proofs outputs =
      (opts.signProofs env curve aux proofs >>= fun received => .ok ⟨received.map Prod.fst,
        opts.signOutputs env curve aux proofs.length (received.any fun entry => entry.2 = .sigAll)
          outputs⟩) := by
  rw [ReceiveOptions.receiveProofs, signProofs]
  cases opts.hashedToPreimage env <;> rfl

/-- The listed keys whose private key is held. -/
def heldKeys (keys : List PublicKey) : List PublicKey :=
  keysAt (opts.p2pkSigningKeys.map fun held => (curve.publicKey held).x) keys

/-- The signers that sign a proof with the listed keys. -/
def listedSigners (aux : Nat → BitVec 256) (keys : List PublicKey) : List (Signer SecretKey) :=
  keys.zipIdx.filterMap fun entry =>
    (opts.signingKey curve entry.1.x).map fun key => ⟨key, aux entry.2⟩

end ReceiveOptions

/-! ## What the wallet signs -/

section Signed

variable {env : Env} {curve : Curve SecretKey} {opts : ReceiveOptions SecretKey}

theorem signingKey_eq_some {x : BitVec 256} {key : SecretKey}
    (h : opts.signingKey curve x = some key) : (curve.publicKey key).x = x := by
  simpa using List.find?_some h

theorem isSome_signingKey {x : BitVec 256} :
    (opts.signingKey curve x).isSome ↔
      x ∈ opts.p2pkSigningKeys.map fun held => (curve.publicKey held).x := by
  simp [ReceiveOptions.signingKey]

theorem signListed_eq (aux : Nat → BitVec 256) (keys : List PublicKey) (proof : Proof) :
    opts.signListed env curve aux keys proof =
      proof.signP2pkBy env curve (opts.listedSigners curve aux keys) := by
  rw [ReceiveOptions.signListed, Proof.signP2pkBy, ReceiveOptions.listedSigners,
    List.foldl_filterMap]
  congr 1
  funext proof entry
  cases opts.signingKey curve entry.1.x <;> rfl

/-- One signer for each listed key that is held. -/
theorem xOf_listedSigners (aux : Nat → BitVec 256) (keys : List PublicKey) :
    (opts.listedSigners curve aux keys).map curve.xOf =
      (opts.heldKeys curve keys).map PublicKey.x := by
  have hentries : ∀ entries : List (PublicKey × Nat),
      (entries.filterMap fun entry => (opts.signingKey curve entry.1.x).map fun key =>
          (⟨key, aux entry.2⟩ : Signer SecretKey)).map curve.xOf =
        (opts.heldKeys curve (entries.map Prod.fst)).map PublicKey.x := by
    intro entries
    unfold ReceiveOptions.heldKeys keysAt
    induction entries with
    | nil => rfl
    | cons entry rest ih =>
        rw [List.map_cons]
        cases hkey : opts.signingKey curve entry.1.x with
        | none =>
            have hx : entry.1.x ∉
                opts.p2pkSigningKeys.map fun held => (curve.publicKey held).x := by
              rw [← isSome_signingKey, hkey]
              simp
            rw [List.filterMap_cons_none (by rw [hkey]; rfl),
              List.filter_cons_of_neg (by simpa using hx), ih]
        | some key =>
            have hx : entry.1.x ∈
                opts.p2pkSigningKeys.map fun held => (curve.publicKey held).x := by
              rw [← isSome_signingKey, hkey]
              rfl
            have hkeyx : curve.xOf ⟨key, aux entry.2⟩ = entry.1.x := signingKey_eq_some hkey
            rw [List.filterMap_cons_some (by rw [hkey]; rfl),
              List.filter_cons_of_pos (by simpa using hx), List.map_cons, List.map_cons, hkeyx, ih]
  have h := hentries keys.zipIdx
  rwa [List.zipIdx_map_fst] at h

/-- A P2PK proof is signed by its listed signers. -/
theorem receiveProof_isP2pk {proof : Proof} {key : PublicKey} {c : Conditions}
    (h : IsP2pk env proof.secret key c) (preimages : List (String × String))
    (aux : Nat → BitVec 256) :
    opts.receiveProof env curve preimages aux proof =
      .ok (proof.signP2pkBy env curve (opts.listedSigners curve aux (listedKeys key c)),
        c.sigFlag) := by
  obtain ⟨secret, hs, hkind, hkey, hc⟩ := h
  simp only [ReceiveOptions.receiveProof, hs, hc, hkind, hkey, Outcome.toOption, Outcome.bind_ok,
    Outcome.ofOption_some, signListed_eq]
  rfl

/-- A P2PK proof as the wallet posts it. -/
def PostedAs (env : Env) (curve : Curve SecretKey) (opts : ReceiveOptions SecretKey)
    (proof input : Proof) : Prop :=
  ∀ key c, IsP2pk env proof.secret key c → ∃ aux,
    input = proof.signP2pkBy env curve (opts.listedSigners curve aux (listedKeys key c))

/-- Signing an output leaves its message as it is. -/
theorem message_signed (signers : List (SecretKey × Nat)) (aux : Nat → BitVec 256)
    (output : SignedOutput) :
    (signers.foldl (fun signed entry => signed.signP2pk env curve ⟨entry.1, aux entry.2⟩)
      output).message = output.message := by
  induction signers generalizing output with
  | nil => rfl
  | cons signer rest ih => exact ih (output.signP2pk env curve ⟨signer.1, aux signer.2⟩)

/-- Signing leaves the messages as they are. -/
theorem messages_signOutputs (aux : Nat → Nat → BitVec 256) (proofs : Nat) (sigAll : Bool)
    (outputs : List BlindedMessage) :
    (opts.signOutputs env curve aux proofs sigAll outputs).map SignedOutput.message = outputs := by
  rw [ReceiveOptions.signOutputs]
  split
  · rw [List.map_map]
    have hmessage : ∀ entry : SignedOutput × Nat, (SignedOutput.message ∘
        fun output : SignedOutput × Nat => (opts.signingKeys curve).zipIdx.foldl
          (fun signed entry =>
            signed.signP2pk env curve ⟨entry.1, aux (proofs + output.2) entry.2⟩)
          output.1) entry = entry.1.message := fun entry => message_signed _ _ _
    rw [List.map_congr_left fun entry _ => hmessage entry]
    have hfst : ∀ fresh : List SignedOutput,
        fresh.zipIdx.map (fun entry => entry.1.message) = fresh.map SignedOutput.message := by
      intro fresh
      rw [← List.zipIdx_map_fst 0 fresh, List.map_map, List.zipIdx_map_fst]
      rfl
    rw [hfst, List.map_map]
    exact List.map_id outputs
  · rw [List.map_map]
    exact List.map_id outputs

/-- The posted request has the signed proofs in order and the outputs that were drawn. -/
theorem receiveProofs_eq_ok {aux : Nat → Nat → BitVec 256} {proofs : List Proof}
    {outputs : List BlindedMessage} {posted : PostedSwap}
    (h : opts.receiveProofs env curve aux proofs outputs = .ok posted) :
    List.Forall₂ (PostedAs env curve opts) proofs posted.inputs ∧
      posted.request.outputs = outputs := by
  simp only [ReceiveOptions.receiveProofs_eq, ReceiveOptions.signProofs, Outcome.bind_eq_ok,
    Outcome.ok.injEq] at h
  obtain ⟨received, ⟨preimages, -, hreceived⟩, rfl⟩ := h
  constructor
  · have hpairs : List.Forall₂ (fun entry result => PostedAs env curve opts entry.1 result.1)
        proofs.zipIdx received := by
      refine (Outcome.forall₂_of_mapM hreceived).imp ?_
      intro entry result hresult key c hp
      rw [receiveProof_isP2pk hp] at hresult
      cases hresult
      exact ⟨aux entry.2, rfl⟩
    rw [List.forall₂_map_right_iff, ← List.zipIdx_map_fst 0 proofs, List.forall₂_map_left_iff]
    exact hpairs
  · exact messages_signOutputs aux proofs.length _ outputs

end Signed

/-! ## Agreement with the checks of the mint -/

/-- The list of signatures that new ones join, if any join. -/
def Proof.joinedTexts (proof : Proof) (count : Nat) : Option (List String) :=
  match proof.witness with
  | none => if count = 0 then none else some []
  | some witness => witness.signatures

/-- The signatures of a proof after new ones were added. -/
theorem signatures_addSignatures (sigs : List Signature) (proof : Proof) :
    (proof.addSignatures sigs).witness.bind Witness.signatures =
      (proof.joinedTexts sigs.length).map (· ++ sigs.map Signature.toText) := by
  unfold Proof.joinedTexts
  cases hw : proof.witness with
  | none =>
      rw [Proof.addSignatures_none sigs hw]
      by_cases hnil : sigs = []
      · simp [hnil]
      · simp [hnil]
  | some witness =>
      cases witness with
      | p2pk w =>
          rw [Proof.addSignatures_p2pk sigs hw]
          rfl
      | htlc w =>
          rw [Proof.addSignatures_htlc sigs hw]
          rfl

namespace ReceiveOptions

/-- At least `n_sigs` distinct listed keys are held. -/
def HoldsEnough (curve : Curve SecretKey) (opts : ReceiveOptions SecretKey) (key : PublicKey)
    (c : Conditions) : Prop :=
  ∃ keys : List PublicKey, keys.Nodup ∧ keys ⊆ listedKeys key c ∧
    (∀ k ∈ keys, ∃ held ∈ opts.p2pkSigningKeys, curve.publicKey held = k) ∧
    c.numSigs.getD 1 ≤ keys.length

/-- The signatures that were there and those for the listed keys that are held are read
together, and no listed key is met twice. -/
def InputUnlocks (env : Env) (curve : Curve SecretKey) (opts : ReceiveOptions SecretKey)
    (proof : Proof) (key : PublicKey) (c : Conditions) : Prop :=
  ∃ texts sigs, proof.joinedTexts (opts.heldKeys curve (listedKeys key c)).length = some texts ∧
    Parsed texts sigs ∧
    (metKeys env (utf8 proof.secret) (listedKeys key c) sigs
      ((opts.heldKeys curve (listedKeys key c)).map PublicKey.x)).Nodup

/-- The signatures of the first input count for the message of the request: those that were
there, and the new ones when the secret has the hash of the message. -/
def RequestUnlocks (env : Env) (curve : Curve SecretKey) (opts : ReceiveOptions SecretKey)
    (first : Proof) (key : PublicKey) (c : Conditions) (msg : String) : Prop :=
  ∃ texts sigs, first.joinedTexts (opts.heldKeys curve (listedKeys key c)).length = some texts ∧
    Parsed texts sigs ∧
    let met := if env.sha256 (utf8 msg) = env.sha256 (utf8 first.secret) then
        metKeys env (utf8 msg) (authorizedKeys key c) sigs
          ((opts.heldKeys curve (listedKeys key c)).map PublicKey.x)
      else signedKeys env (utf8 msg) (authorizedKeys key c) sigs
    met.Nodup ∧ c.numSigs.getD 1 ≤ met.length

end ReceiveOptions

/-- Some proof has SIG_ALL. -/
def AnySigAll (env : Env) (proofs : List Proof) : Prop :=
  ∃ proof ∈ proofs, ∃ key c, IsP2pk env proof.secret key c ∧ c.sigFlag = .sigAll

/-- The condition under which wallet and mint agree. -/
def ReceiveAgrees (env : Env) (curve : Curve SecretKey) (opts : ReceiveOptions SecretKey)
    (request : SwapRequest) : Prop :=
  (∀ proof ∈ request.inputs, ∀ key c, IsP2pk env proof.secret key c →
    opts.InputUnlocks env curve proof key c) ∧
  (AnySigAll env request.inputs → ∀ first key c, request.inputs.head? = some first →
    IsP2pk env first.secret key c →
      opts.RequestUnlocks env curve first key c request.sigAllMsgToSign)

section Agreement

variable {env : Env} {curve : Curve SecretKey} {opts : ReceiveOptions SecretKey}

/-- The texts of a proof after the listed signers have signed it. -/
theorem parsed_listedSigners {aux : Nat → BitVec 256} {keys : List PublicKey} {proof : Proof}
    {P : List Signature → Prop} :
    (∃ texts all,
        (proof.signP2pkBy env curve (opts.listedSigners curve aux keys)).witness.bind
          Witness.signatures = some texts ∧ Parsed texts all ∧ P all) ↔
      ∃ texts sigs, proof.joinedTexts (opts.heldKeys curve keys).length = some texts ∧
        Parsed texts sigs ∧
        P (sigs ++ (opts.listedSigners curve aux keys).map fun signer =>
          curve.sign env signer (utf8 proof.secret)) := by
  have hlength :
      (opts.listedSigners curve aux keys).length = (opts.heldKeys curve keys).length := by
    have hxs : (opts.listedSigners curve aux keys).map curve.xOf = _ := xOf_listedSigners aux keys
    have hlen := congrArg List.length hxs
    rwa [List.length_map, List.length_map] at hlen
  rw [Proof.signP2pkBy_eq, signatures_addSignatures, List.length_map, hlength]
  simp only [Option.map_eq_some_iff]
  constructor
  · rintro ⟨_, all, ⟨texts, htexts, rfl⟩, hall, hP⟩
    obtain ⟨sigs, hsigs, rfl⟩ := (Parsed.append_iff (Parsed.toText _)).mp hall
    exact ⟨texts, sigs, htexts, hsigs, hP⟩
  · rintro ⟨texts, sigs, htexts, hsigs, hP⟩
    exact ⟨_, _, ⟨texts, htexts, rfl⟩, hsigs.append (Parsed.toText _), hP⟩

/-- Enough keys that are held are met. -/
theorem ReceiveOptions.HoldsEnough.le_met {key : PublicKey} {c : Conditions}
    (h : opts.HoldsEnough curve key c)
    (msg : List UInt8) (sigs : List Signature) :
    c.numSigs.getD 1 ≤ (metKeys env msg (listedKeys key c) sigs
      ((opts.heldKeys curve (listedKeys key c)).map PublicKey.x)).length := by
  obtain ⟨keys, hnd, hsub, hheld, hle⟩ := h
  have hmet : keys ⊆ metKeys env msg (listedKeys key c) sigs
      ((opts.heldKeys curve (listedKeys key c)).map PublicKey.x) := by
    intro k hk
    obtain ⟨held, hmem, rfl⟩ := hheld k hk
    have hx : (curve.publicKey held).x ∈
        opts.p2pkSigningKeys.map fun held => (curve.publicKey held).x :=
      List.mem_map.mpr ⟨held, hmem, rfl⟩
    have hkey : curve.publicKey held ∈ opts.heldKeys curve (listedKeys key c) :=
      List.mem_filter.mpr ⟨hsub hk, decide_eq_true hx⟩
    exact List.mem_append_right _
      (mem_matchedKeys.mpr ⟨hsub hk, List.mem_map_of_mem hkey⟩)
  exact hle.trans (List.subperm_of_subset hnd hmet).length_le

/-- The first check of a posted input. -/
theorem verifyP2pk_posted (ideal : curve.Ideal env) {now : Nat} {proof : Proof} {key : PublicKey}
    {c : Conditions} (h : IsP2pk env proof.secret key c) (hexp : ¬ Expired now c)
    (henough : opts.HoldsEnough curve key c) (aux : Nat → BitVec 256) :
    verifyP2pk env now
        (proof.signP2pkBy env curve (opts.listedSigners curve aux (listedKeys key c))) = .ok () ↔
      opts.InputUnlocks env curve proof key c := by
  have hsecret : (proof.signP2pkBy env curve
      (opts.listedSigners curve aux (listedKeys key c))).secret = proof.secret := by
    rw [Proof.signP2pkBy_eq, Proof.addSignatures_secret]
  have h' := h
  rw [← hsecret] at h'
  have hperm : ∀ sigs : List Signature, (signedKeys env (utf8 proof.secret) (listedKeys key c)
      (sigs ++ (opts.listedSigners curve aux (listedKeys key c)).map fun signer =>
        curve.sign env signer (utf8 proof.secret))).Perm
      (metKeys env (utf8 proof.secret) (listedKeys key c) sigs
        ((opts.heldKeys curve (listedKeys key c)).map PublicKey.x)) := by
    intro sigs
    rw [← xOf_listedSigners aux]
    exact signedKeys_join_perm ideal rfl _ sigs _
  rw [verifyP2pk_before h' hexp, hsecret, parsed_listedSigners]
  constructor
  · rintro ⟨texts, sigs, htexts, hsigs, hnd, -⟩
    exact ⟨texts, sigs, htexts, hsigs, (hperm sigs).nodup_iff.mp hnd⟩
  · rintro ⟨texts, sigs, htexts, hsigs, hnd⟩
    refine ⟨texts, sigs, htexts, hsigs, (hperm sigs).nodup_iff.mpr hnd, ?_⟩
    rw [(hperm sigs).length_eq]
    exact henough.le_met _ sigs

/-- The second check of a request whose first input is posted. -/
theorem verifySigAll_posted (ideal : curve.Ideal env) {first : Proof} {rest : List Proof}
    {secret : Nut10Secret} {key : PublicKey} {c : Conditions}
    (lock : SigAllLock env first.secret (rest.map Proof.secret) secret key c)
    (aux : Nat → BitVec 256) (msg : String) :
    verifySigAll env (first.signP2pkBy env curve
        (opts.listedSigners curve aux (listedKeys key c)) :: rest) msg = .ok () ↔
      opts.RequestUnlocks env curve first key c msg := by
  have lock' : SigAllLock env (first.signP2pkBy env curve
      (opts.listedSigners curve aux (listedKeys key c))).secret (rest.map Proof.secret) secret
        key c := by
    rw [Proof.signP2pkBy_eq, Proof.addSignatures_secret]
    exact lock
  have hmet : ∀ sigs : List Signature, (signedKeys env (utf8 msg) (authorizedKeys key c)
      (sigs ++ (opts.listedSigners curve aux (listedKeys key c)).map fun signer =>
        curve.sign env signer (utf8 first.secret))).Perm
      (if env.sha256 (utf8 msg) = env.sha256 (utf8 first.secret) then
        metKeys env (utf8 msg) (authorizedKeys key c) sigs
          ((opts.heldKeys curve (listedKeys key c)).map PublicKey.x)
      else signedKeys env (utf8 msg) (authorizedKeys key c) sigs) := by
    intro sigs
    split
    next hd =>
      rw [← xOf_listedSigners aux]
      exact signedKeys_join_perm ideal hd _ sigs _
    next hd => exact signedKeys_join_perm_of_ne ideal hd _ sigs _
  rw [verifySigAll_eq_ok lock', parsed_listedSigners]
  simp only [ReceiveOptions.RequestUnlocks, (hmet _).nodup_iff, (hmet _).length_eq]

/-- Lists of related elements satisfy related properties together. -/
theorem forall_iff_of_forall₂ {α β : Type} {P : α → Prop} {Q : β → Prop} {xs : List α}
    {ys : List β} (h : List.Forall₂ (fun x y => P x ↔ Q y) xs ys) :
    (∀ x ∈ xs, P x) ↔ ∀ y ∈ ys, Q y := by
  induction h with
  | nil => simp
  | cons hxy _ ih => rw [List.forall_mem_cons, List.forall_mem_cons, hxy, ih]

/-- Only the secrets decide whether there is SIG_ALL. -/
theorem anySigAll_congr {proofs inputs : List Proof}
    (h : inputs.map Proof.secret = proofs.map Proof.secret) :
    AnySigAll env inputs ↔ AnySigAll env proofs := by
  have htexts : ∀ list : List Proof, AnySigAll env list ↔
      ∃ text ∈ list.map Proof.secret, ∃ key c, IsP2pk env text key c ∧ c.sigFlag = .sigAll := by
    intro list
    simp [AnySigAll]
  rw [htexts, htexts, h]

/-- Proofs that share data and tags with SIG_ALL among them have one condition. -/
theorem exists_lock_of_shared {first : Proof} {rest : List Proof} {key : PublicKey}
    {c : Conditions} (hp : IsP2pk env first.secret key c) (hany : AnySigAll env (first :: rest))
    (hshared : ∀ proof ∈ first :: rest, ∃ s t, env.parseSecret first.secret = some s ∧
      env.parseSecret proof.secret = some t ∧ t.secretData.data = s.secretData.data ∧
        t.secretData.tags = s.secretData.tags) :
    ∃ secret, SigAllLock env first.secret (rest.map Proof.secret) secret key c := by
  obtain ⟨secret, hs, hkind, hkey, hc⟩ := hp
  have hflag : c.sigFlag = .sigAll := by
    obtain ⟨proof, hproof, key', c', ⟨t', ht', -, -, hc'⟩, hflag⟩ := hany
    obtain ⟨s, t, hs', ht, -, htags⟩ := hshared proof hproof
    cases hs.symm.trans hs'
    cases ht.symm.trans ht'
    rw [htags] at hc'
    cases hc.symm.trans hc'
    exact hflag
  refine ⟨secret, hs, hkind, hkey, ?_, hflag, ?_⟩
  · rcases ofSecret_of_tryFrom hc with hof | ⟨-, hinputs⟩
    · exact hof
    · rw [hflag] at hinputs
      cases hinputs
  · intro text htext
    obtain ⟨proof, hproof, rfl⟩ := List.mem_map.mp htext
    obtain ⟨s, t, hs', ht, hdata, htags⟩ := hshared proof (List.mem_cons_of_mem _ hproof)
    cases hs.symm.trans hs'
    exact ⟨t, ht, hdata, htags⟩

end Agreement

/-- For every list of P2PK proofs before their locktimes and all signing keys that hold enough of
each: the posted swap passes the checks of the mint exactly under the condition above. -/
theorem receive_agrees_iff (env : Env) (curve : Curve SecretKey) (ideal : curve.Ideal env)
    (now : Nat) (opts : ReceiveOptions SecretKey) (aux : Nat → Nat → BitVec 256)
    (proofs : List Proof) (outputs : List BlindedMessage) (posted : PostedSwap)
    (hpost : opts.receiveProofs env curve aux proofs outputs = .ok posted)
    (hproofs : ∀ proof ∈ proofs, ∃ key c, IsP2pk env proof.secret key c ∧ ¬ Expired now c ∧
      opts.HoldsEnough curve key c)
    (hshared : AnySigAll env proofs → ∀ proof ∈ proofs, ∀ other ∈ proofs, ∃ s t,
      env.parseSecret proof.secret = some s ∧ env.parseSecret other.secret = some t ∧
        t.secretData.data = s.secretData.data ∧ t.secretData.tags = s.secretData.tags) :
    checkSpendingConditions env now posted.request = .ok () ↔
      ReceiveAgrees env curve opts ⟨proofs, outputs⟩ := by
  obtain ⟨hforall, houtputs⟩ := receiveProofs_eq_ok hpost
  have hinputs : List.Forall₂ (fun proof input => ∃ key c aux, IsP2pk env proof.secret key c ∧
      ¬ Expired now c ∧ opts.HoldsEnough curve key c ∧
      input = proof.signP2pkBy env curve (opts.listedSigners curve aux (listedKeys key c)))
      proofs posted.inputs := by
    refine ((List.forall₂_and_left _ _).mpr ⟨hproofs, hforall⟩).imp ?_
    rintro proof input ⟨⟨key, c, hp, hexp, henough⟩, hposted⟩
    obtain ⟨aux, haux⟩ := hposted key c hp
    exact ⟨key, c, aux, hp, hexp, henough, haux⟩
  have hsecrets : posted.inputs.map Proof.secret = proofs.map Proof.secret := by
    have hsame :
        List.Forall₂ (· = ·) (proofs.map Proof.secret) (posted.inputs.map Proof.secret) := by
      rw [List.forall₂_map_left_iff, List.forall₂_map_right_iff]
      refine hinputs.imp ?_
      rintro proof _ ⟨key, c, aux, -, -, -, rfl⟩
      rw [Proof.signP2pkBy_eq, Proof.addSignatures_secret]
    rw [List.forall₂_eq_eq_eq] at hsame
    exact hsame.symm
  have hmsg : posted.request.sigAllMsgToSign =
      (⟨proofs, outputs⟩ : SwapRequest).sigAllMsgToSign := by
    have hinputs' : posted.request.inputs = posted.inputs := rfl
    simp only [SwapRequest.sigAllMsgToSign, houtputs, hinputs', hsecrets]
  have hp2pk : ∀ input ∈ posted.request.inputs, ∃ key c, IsP2pk env input.secret key c := by
    intro input hinput
    have hmem : input.secret ∈ proofs.map Proof.secret := hsecrets ▸ List.mem_map_of_mem hinput
    obtain ⟨proof, hproof, hsecret⟩ := List.mem_map.mp hmem
    obtain ⟨key, c, hp, -⟩ := hproofs proof hproof
    exact ⟨key, c, hsecret ▸ hp⟩
  have heach : (∀ input ∈ posted.inputs, verifyP2pk env now input = .ok ()) ↔
      ∀ proof ∈ proofs, ∀ key c, IsP2pk env proof.secret key c →
        opts.InputUnlocks env curve proof key c := by
    refine (forall_iff_of_forall₂ (hinputs.imp ?_)).symm
    rintro proof _ ⟨key, c, aux, hp, hexp, henough, rfl⟩
    rw [verifyP2pk_posted ideal hp hexp henough]
    constructor
    · intro h
      exact h key c hp
    · intro h key' c' hp'
      obtain ⟨rfl, rfl⟩ := hp.unique hp'
      exact h
  rw [checkSpendingConditions_eq_ok hp2pk]
  refine and_congr heach ?_
  change (AnySigAll env posted.inputs → _) ↔ (AnySigAll env proofs → _)
  rw [anySigAll_congr hsecrets]
  apply imp_congr_right
  intro hany
  cases proofs with
  | nil =>
      obtain ⟨_, hmem, -⟩ := hany
      cases hmem
  | cons first rest =>
      rw [List.forall₂_cons_left_iff] at hinputs
      obtain ⟨input, inputs, ⟨key, c, aux', hp, -, -, rfl⟩, -, hposted⟩ := hinputs
      obtain ⟨secret, lock⟩ :=
        exists_lock_of_shared hp hany (hshared hany first List.mem_cons_self)
      have hrest : inputs.map Proof.secret = rest.map Proof.secret := by
        rw [hposted, List.map_cons, List.map_cons] at hsecrets
        exact (List.cons.inj hsecrets).2
      rw [← hrest] at lock
      have hinputs' : posted.request.inputs = posted.inputs := rfl
      rw [SwapRequest.verifySigAll, hinputs', hposted, hmsg, verifySigAll_posted ideal lock]
      constructor
      · rintro h _ key' c' ⟨⟩ hp'
        obtain ⟨rfl, rfl⟩ := hp.unique hp'
        exact h
      · intro h
        exact h first key c rfl hp

/-! ## A proof with SIG_ALL is received -/

def ownedOptions : ReceiveOptions PublicKey := ⟨[evenPoint], []⟩

def ownedOutputs : List BlindedMessage := [⟨Amount.one, .v1 0, otherPoint⟩]

/-- The input and the output are signed, each on its own. -/
def ownedPosted : PostedSwap where
  inputs := [ownedInput.signP2pk ownedEnv echoCurve ⟨evenPoint, 0⟩]
  outputs := ownedOutputs.map fun message =>
    SignedOutput.signP2pk ownedEnv echoCurve ⟨evenPoint, 0⟩ ⟨message, none⟩

theorem owned_received :
    ownedOptions.receiveProofs ownedEnv echoCurve (fun _ _ => 0) [ownedInput] ownedOutputs =
      .ok ownedPosted := by
  decide +kernel

theorem owned_isP2pk : IsP2pk ownedEnv ownedInput.secret evenPoint ownedConditions := by
  have lock : SigAllLock ownedEnv ownedInput.secret (([] : List Proof).map Proof.secret)
      (mixedSecret .p2pk) evenPoint ownedConditions := owned_lock
  exact lock.isP2pk (by simp) _ List.mem_cons_self

theorem owned_holds : ownedOptions.HoldsEnough echoCurve evenPoint ownedConditions := by
  refine ⟨[evenPoint], List.nodup_singleton _, ?_, ?_, by decide⟩
  · simp [listedKeys]
  · intro k hk
    exact ⟨k, hk, rfl⟩

/-- The signatures on the input and on the output are none on the request. -/
theorem receive_refused :
    IsP2pk ownedEnv ownedInput.secret evenPoint ownedConditions ∧
      ¬ Expired 1700000000 ownedConditions ∧
      ownedOptions.HoldsEnough echoCurve evenPoint ownedConditions ∧
      ownedOptions.receiveProofs ownedEnv echoCurve (fun _ _ => 0) [ownedInput] ownedOutputs =
        .ok ownedPosted ∧
      checkSpendingConditions ownedEnv 1700000000 ownedPosted.request =
        .err (.nut11 .spendConditionsNotMet) := by
  refine ⟨owned_isP2pk, owned_not_expired, owned_holds, owned_received, ?_⟩
  decide +kernel

theorem receive_agrees_iff_at_owned :
    checkSpendingConditions ownedEnv 1700000000 ownedPosted.request = .ok () ↔
      ReceiveAgrees ownedEnv echoCurve ownedOptions ⟨[ownedInput], ownedOutputs⟩ := by
  refine receive_agrees_iff ownedEnv echoCurve ownedEnv_ideal 1700000000 ownedOptions
    (fun _ _ => 0) [ownedInput] ownedOutputs ownedPosted owned_received ?_ ?_
  · intro proof hproof
    rw [List.mem_singleton.mp hproof]
    exact ⟨evenPoint, ownedConditions, owned_isP2pk, owned_not_expired, owned_holds⟩
  · intro _ proof hproof other hother
    rw [List.mem_singleton.mp hproof, List.mem_singleton.mp hother]
    exact ⟨_, _, owned_lock.parse, owned_lock.parse, rfl, rfl⟩

end Cdk
