import Cdk.Nuts.Dhke

/-!
# From pre-mint secrets to proofs

A wallet blinds secrets, the signatory signs the blinded messages one by one,
and the wallet unblinds the signatures with the blinding factors and secrets in
the same positions. The secrets may have been combined and sorted before.
-/

namespace Cdk

open Lib

namespace Dhke

structure BlindedMessage (G : Type) [AddCommGroup G] where
  amount : Amount
  keysetId : Id
  blindedSecret : Point G

structure BlindSignature (q : ℕ) (G : Type) [AddCommGroup G] where
  amount : Amount
  keysetId : Id
  c : Point G
  dleq : Option (BlindSignatureDleq q)

structure Proof (q : ℕ) (G : Type) [AddCommGroup G] where
  amount : Amount
  keysetId : Id
  secret : String
  c : Point G
  witness : Option Witness
  dleq : Option (ProofDleq q)

/-- A secret with its blinding factor and the message made of them. -/
structure PreMint (q : ℕ) (G : Type) [AddCommGroup G] where
  blindedMessage : BlindedMessage G
  secret : String
  r : SecretKey q
  amount : Amount

/-- A keyset of the signatory. -/
structure MintKeySet (q : ℕ) where
  active : Bool
  keys : Amount → Option (SecretKey q)

variable {q : ℕ} [Fact q.Prime] {G : Type} [AddCommGroup G] [Module (ZMod q) G] [DecidableEq G]

/-- The public keys that a wallet has of a keyset. -/
def MintKeySet.publicKeys (keyset : MintKeySet q) (curve : Curve G) (amount : Amount) :
    Option (Point G) :=
  (keyset.keys amount).map (SecretKey.publicKey curve)

/-! ## Signatures and proofs -/

/-- `BlindSignature::new`. -/
def BlindSignature.new (curve : Curve G) (nonce : SecretKey q) (amount : Amount)
    (blindedSignature : Point G) (keysetId : Id) (blindedMessage : Point G)
    (mintSecretKey : SecretKey q) : Outcome Error (BlindSignature q G) := do
  let dleq ← calculateDleq curve nonce blindedSignature blindedMessage mintSecretKey
  .ok ⟨amount, keysetId, blindedSignature, some dleq⟩

/-- `BlindSignature::verify_dleq`. -/
def BlindSignature.verifyDleq (signature : BlindSignature q G) (curve : Curve G)
    (mintPubkey blindedMessage : Point G) : Outcome Error Unit :=
  match signature.dleq with
  | some dleq => Dhke.verifyDleq curve blindedMessage signature.c dleq.e dleq.s mintPubkey
  | none => .err .missingDleqProof

/-- `Proof::verify_dleq`. -/
def Proof.verifyDleq (proof : Proof q G) (curve : Curve G) (mintPubkey : Point G) :
    Outcome Error Unit :=
  match proof.dleq with
  | some dleq => do
      let y ← Outcome.ofOption .noValidPoint (curve.hashToCurve (utf8 proof.secret))
      let blindedSignature ← combine proof.c (mulTweak mintPubkey dleq.r)
      let blindedMessage ← combine y (SecretKey.publicKey curve dleq.r)
      Dhke.verifyDleq curve blindedMessage blindedSignature dleq.e dleq.s mintPubkey
  | none => .err .missingDleqProof

/-- A round of the loop of `DbSignatory::blind_sign`. -/
def blindSignOne (curve : Curve G) (keysets : Id → Option (MintKeySet q)) (nonce : SecretKey q)
    (message : BlindedMessage G) : Outcome Error (BlindSignature q G) := do
  let keyset ← Outcome.ofOption .unknownKeySet (keysets message.keysetId)
  Outcome.ensure keyset.active .inactiveKeyset
  let key ← Outcome.ofOption .unknownKeySet (keyset.keys message.amount)
  let c := signMessage key message.blindedSecret
  BlindSignature.new curve nonce message.amount c message.keysetId message.blindedSecret key

/-- `DbSignatory::blind_sign`, with the nonces in the order in which they are drawn. -/
def blindSign (curve : Curve G) (keysets : Id → Option (MintKeySet q)) :
    (Nat → SecretKey q) → List (BlindedMessage G) → Outcome Error (List (BlindSignature q G))
  | _, [] => .ok []
  | nonces, message :: rest => do
      let signature ← blindSignOne curve keysets (nonces 0) message
      let signatures ← blindSign curve keysets (fun i => nonces (i + 1)) rest
      .ok (signature :: signatures)

/-- `DbSignatory::verify_proofs`. -/
def verifyProofs (curve : Curve G) (keysets : Id → Option (MintKeySet q))
    (proofs : List (Proof q G)) : Outcome Error Unit :=
  proofs.forM fun proof => do
    let keyset ← Outcome.ofOption .unknownKeySet (keysets proof.keysetId)
    let key ← Outcome.ofOption .unknownKeySet (keyset.keys proof.amount)
    verifyMessage curve key proof.c (utf8 proof.secret)

/-- A round of the loop of `construct_proofs`. -/
def constructProof (keys : Amount → Option (Point G)) (promise : BlindSignature q G)
    (r : SecretKey q) (secret : String) : Outcome Error (Proof q G) := do
  let a ← Outcome.ofOption .noKey (keys promise.amount)
  let c ← unblindMessage promise.c r a
  .ok
    { amount := promise.amount
      keysetId := promise.keysetId
      secret := secret
      c := c
      witness := none
      dleq := promise.dleq.map fun d => ⟨d.e, d.s, r⟩ }

/-- `construct_proofs`. -/
def constructProofs (promises : List (BlindSignature q G)) (rs : List (SecretKey q))
    (secrets : List String) (keys : Amount → Option (Point G)) :
    Outcome Error (List (Proof q G)) :=
  if promises.length ≠ rs.length ∨ promises.length ≠ secrets.length then .err .lengths
  else ((promises.zip rs).zip secrets).mapM fun entry =>
    constructProof keys entry.1.1 entry.1.2 entry.2

/-! ## Pre-mint secrets -/

structure PreMintSecrets (q : ℕ) (G : Type) [AddCommGroup G] where
  secrets : List (PreMint q G)
  keysetId : Id

/-- A round of the loops that make pre-mint secrets: blind a secret and wrap it in a message. -/
def PreMint.make (curve : Curve G) (keysetId : Id) (amount : Amount) (secret : String)
    (r : SecretKey q) : Outcome Error (PreMint q G) := do
  let blinded ← blindMessage curve (utf8 secret) r
  .ok ⟨⟨amount, keysetId, blinded⟩, secret, r, amount⟩

namespace PreMintSecrets

/-- The loop of `random`, `from_secrets`, `with_conditions`, `blank` and `from_seed`, for the
amounts, secrets and blinding factors that these choose. -/
def make (curve : Curve G) (keysetId : Id) (parts : List (Amount × String × SecretKey q)) :
    Outcome Error (PreMintSecrets q G) := do
  let output ← parts.mapM fun part => PreMint.make curve keysetId part.1 part.2.1 part.2.2
  .ok ⟨output, keysetId⟩

def blindedMessages (p : PreMintSecrets q G) : List (BlindedMessage G) :=
  p.secrets.map PreMint.blindedMessage

/-- `PreMintSecrets::secrets`. -/
def secretTexts (p : PreMintSecrets q G) : List String := p.secrets.map PreMint.secret

def rs (p : PreMintSecrets q G) : List (SecretKey q) := p.secrets.map PreMint.r

def combine (p other : PreMintSecrets q G) : PreMintSecrets q G :=
  { p with secrets := p.secrets ++ other.secrets }

/-- `PreMintSecrets::sort_secrets`, a stable sort by amount. -/
def sortSecrets (p : PreMintSecrets q G) : PreMintSecrets q G :=
  { p with secrets := p.secrets.mergeSort fun a b => a.amount.toNat ≤ b.amount.toNat }

/-- Pre-mint secrets of one keyset, made, combined and sorted in any way. -/
inductive Built (curve : Curve G) (keysetId : Id) : PreMintSecrets q G → Prop
  | make {parts : List (Amount × String × SecretKey q)} {p : PreMintSecrets q G}
      (h : PreMintSecrets.make curve keysetId parts = .ok p) : Built curve keysetId p
  | combine {p other : PreMintSecrets q G} (h : Built curve keysetId p)
      (hother : Built curve keysetId other) : Built curve keysetId (p.combine other)
  | sortSecrets {p : PreMintSecrets q G} (h : Built curve keysetId p) :
      Built curve keysetId p.sortSecrets

end PreMintSecrets

/-- The message of a pre-mint is its secret blinded with its factor, for its amount. -/
structure PreMint.Blinded (curve : Curve G) (keysetId : Id) (p : PreMint q G) : Prop where
  blinded : blindMessage curve (utf8 p.secret) p.r = .ok p.blindedMessage.blindedSecret
  amount : p.blindedMessage.amount = p.amount
  keysetId : p.blindedMessage.keysetId = keysetId

section Premints

variable {curve : Curve G} {keysetId : Id}

theorem PreMint.blinded_make {amount : Amount} {secret : String} {r : SecretKey q}
    {p : PreMint q G} (h : PreMint.make curve keysetId amount secret r = .ok p) :
    p.Blinded curve keysetId := by
  simp only [PreMint.make, Outcome.bind_eq_ok, Outcome.ok.injEq] at h
  obtain ⟨blinded, hblinded, rfl⟩ := h
  exact ⟨hblinded, rfl, rfl⟩

theorem PreMintSecrets.Built.blinded {premints : PreMintSecrets q G}
    (h : premints.Built curve keysetId) : ∀ p ∈ premints.secrets, p.Blinded curve keysetId := by
  induction h with
  | make hmake =>
      simp only [PreMintSecrets.make, Outcome.bind_eq_ok, Outcome.ok.injEq] at hmake
      obtain ⟨output, houtput, rfl⟩ := hmake
      intro p hp
      obtain ⟨part, -, hpart⟩ := Outcome.exists_of_mem_mapM houtput hp
      exact PreMint.blinded_make hpart
  | combine _ _ ih ihother =>
      intro p hp
      rcases List.mem_append.mp hp with hp | hp
      · exact ih p hp
      · exact ihother p hp
  | sortSecrets _ ih =>
      intro p hp
      exact ih p (List.mem_mergeSort.mp hp)

end Premints

/-! ## The round trip -/

/-- A signature and a proof belong to a pre-mint and verify under the key of its amount. -/
structure Accepted (curve : Curve G) (keysetId : Id) (key : SecretKey q) (p : PreMint q G)
    (signature : BlindSignature q G) (proof : Proof q G) : Prop where
  amount : proof.amount = p.amount
  keysetId : proof.keysetId = keysetId
  secret : proof.secret = p.secret
  signatureDleq : signature.verifyDleq curve (SecretKey.publicKey curve key)
    p.blindedMessage.blindedSecret = .ok ()
  message : verifyMessage curve key proof.c (utf8 proof.secret) = .ok ()
  proofDleq : proof.verifyDleq curve (SecretKey.publicKey curve key) = .ok ()

/-- Signatures and proofs for pre-mints, in their order. -/
inductive Issued (curve : Curve G) (keysetId : Id) (keyset : MintKeySet q) :
    List (PreMint q G) → List (BlindSignature q G) → List (Proof q G) → Prop
  | nil : Issued curve keysetId keyset [] [] []
  | cons {p : PreMint q G} {signature : BlindSignature q G} {proof : Proof q G}
      {ps : List (PreMint q G)} {signatures : List (BlindSignature q G)} {proofs : List (Proof q G)}
      {key : SecretKey q} (hkey : keyset.keys p.amount = some key)
      (haccepted : Accepted curve keysetId key p signature proof)
      (hrest : Issued curve keysetId keyset ps signatures proofs) :
      Issued curve keysetId keyset (p :: ps) (signature :: signatures) (proof :: proofs)

section RoundTrip

variable {curve : Curve G} {keysets : Id → Option (MintKeySet q)} {keysetId : Id}
  {keyset : MintKeySet q} {key : SecretKey q} {p : PreMint q G}

/-- Signing the message of a pre-mint gives the product of its point and the key with a proof of
equality. -/
theorem exists_blindSignOne (hkeyset : keysets keysetId = some keyset)
    (hactive : keyset.active = true) (hp : p.Blinded curve keysetId)
    (hkey : keyset.keys p.amount = some key) {nonce : SecretKey q}
    (hnonce : NonceFits curve nonce p.blindedMessage.blindedSecret key) :
    ∃ dleq, calculateDleq curve nonce (signMessage key p.blindedMessage.blindedSecret)
        p.blindedMessage.blindedSecret key = .ok dleq ∧
      blindSignOne curve keysets nonce p.blindedMessage =
        .ok ⟨p.amount, keysetId, signMessage key p.blindedMessage.blindedSecret, some dleq⟩ := by
  obtain ⟨dleq, hdleq⟩ := exists_calculateDleq hnonce
  refine ⟨dleq, hdleq, ?_⟩
  simp only [blindSignOne, BlindSignature.new, Outcome.bind_eq_ok, Outcome.ofOption_eq_ok,
    Outcome.ensure_eq_ok, hp.amount, hp.keysetId]
  exact ⟨keyset, hkeyset, (), hactive, key, hkey, dleq, hdleq, rfl⟩

/-- A signature on the message of a pre-mint unblinds to a proof that verifies in every way. -/
theorem exists_constructProof (hp : p.Blinded curve keysetId)
    (hkey : keyset.keys p.amount = some key) {nonce : SecretKey q} {dleq : BlindSignatureDleq q}
    (hdleq : calculateDleq curve nonce (signMessage key p.blindedMessage.blindedSecret)
      p.blindedMessage.blindedSecret key = .ok dleq) :
    ∃ proof, constructProof (keyset.publicKeys curve)
        ⟨p.amount, keysetId, signMessage key p.blindedMessage.blindedSecret, some dleq⟩ p.r p.secret
          = .ok proof ∧
      Accepted curve keysetId key p
        ⟨p.amount, keysetId, signMessage key p.blindedMessage.blindedSecret, some dleq⟩ proof := by
  obtain ⟨c, hunblind, hverify⟩ := (unblind_accepted_iff hp.blinded).mpr rfl
  have hpublic : keyset.publicKeys curve p.amount = some (SecretKey.publicKey curve key) := by
    rw [MintKeySet.publicKeys, hkey, Option.map_some]
  have hsigned := verifyDleq_calculateDleq hdleq
  refine ⟨⟨p.amount, keysetId, p.secret, c, none, some ⟨dleq.e, dleq.s, p.r⟩⟩, ?_, ?_⟩
  · simp only [constructProof, Outcome.bind_eq_ok, Outcome.ofOption_eq_ok, Option.map_some]
    exact ⟨_, hpublic, c, hunblind, rfl⟩
  · refine ⟨rfl, rfl, rfl, hsigned, hverify, ?_⟩
    obtain ⟨y, hy, hvalue⟩ := blindMessage_eq_ok.mp hp.blinded
    have hreblind : combine c (mulTweak (SecretKey.publicKey curve key) p.r) =
        .ok (signMessage key p.blindedMessage.blindedSecret) := by
      apply combine_eq_ok.mpr
      rw [unblindMessage_eq_ok.mp hunblind]
      exact (Blinding.blind_unblind _ _ _).symm
    simp only [Proof.verifyDleq, Outcome.bind_eq_ok, Outcome.ofOption_eq_ok]
    exact ⟨y, hy, _, hreblind, _, combine_eq_ok.mpr hvalue, hsigned⟩

theorem constructProofs_cons {promise : BlindSignature q G} {promises : List (BlindSignature q G)}
    {r : SecretKey q} {rs : List (SecretKey q)} {secret : String} {secrets : List String}
    {keys : Amount → Option (Point G)} {proof : Proof q G} {proofs : List (Proof q G)}
    (hproof : constructProof keys promise r secret = .ok proof)
    (hrest : constructProofs promises rs secrets keys = .ok proofs) :
    constructProofs (promise :: promises) (r :: rs) (secret :: secrets) keys =
      .ok (proof :: proofs) := by
  unfold constructProofs at hrest ⊢
  split at hrest
  next => cases hrest
  next hlength =>
    rw [if_neg (by simpa using hlength)]
    simp only [List.zip_cons_cons, List.mapM_cons, hproof, hrest, Outcome.bind_ok, Outcome.pure_eq]

/-- The excluded cases: a hash that is no secret key, or a response that is zero. -/
def NoncesFit (curve : Curve G) (keyset : MintKeySet q) (nonces : Nat → SecretKey q)
    (ps : List (PreMint q G)) : Prop :=
  ∀ i p key, ps[i]? = some p → keyset.keys p.amount = some key →
    NonceFits curve (nonces i) p.blindedMessage.blindedSecret key

theorem exists_issued (hkeyset : keysets keysetId = some keyset) (hactive : keyset.active = true)
    {ps : List (PreMint q G)} (hblinded : ∀ p ∈ ps, p.Blinded curve keysetId)
    (hkeys : ∀ p ∈ ps, (keyset.keys p.amount).isSome) {nonces : Nat → SecretKey q}
    (hnonces : NoncesFit curve keyset nonces ps) :
    ∃ signatures proofs,
      blindSign curve keysets nonces (ps.map PreMint.blindedMessage) = .ok signatures ∧
      constructProofs signatures (ps.map PreMint.r) (ps.map PreMint.secret)
        (keyset.publicKeys curve) = .ok proofs ∧
      Issued curve keysetId keyset ps signatures proofs := by
  induction ps generalizing nonces with
  | nil => exact ⟨[], [], rfl, rfl, .nil⟩
  | cons p ps ih =>
      obtain ⟨hp, hps⟩ := List.forall_mem_cons.mp hblinded
      obtain ⟨hpkey, hpskey⟩ := List.forall_mem_cons.mp hkeys
      obtain ⟨key, hkey⟩ := Option.isSome_iff_exists.mp hpkey
      have hrestNonces : NoncesFit curve keyset (fun i => nonces (i + 1)) ps :=
        fun i p' key' hget => hnonces (i + 1) p' key' (by rwa [List.getElem?_cons_succ])
      obtain ⟨signatures, proofs, hsign, hconstruct, hissued⟩ := ih hps hpskey hrestNonces
      obtain ⟨dleq, hdleq, hsignature⟩ :=
        exists_blindSignOne hkeyset hactive hp hkey (hnonces 0 p key rfl hkey)
      obtain ⟨proof, hproof, haccepted⟩ := exists_constructProof hp hkey hdleq
      refine ⟨_ :: signatures, proof :: proofs, ?_, constructProofs_cons hproof hconstruct,
        .cons hkey haccepted hissued⟩
      simp only [List.map_cons, blindSign, hsignature, hsign, Outcome.bind_ok]

theorem Issued.verifyProofs (hkeyset : keysets keysetId = some keyset) {ps : List (PreMint q G)}
    {signatures : List (BlindSignature q G)} {proofs : List (Proof q G)}
    (h : Issued curve keysetId keyset ps signatures proofs) :
    Dhke.verifyProofs curve keysets proofs = .ok () := by
  apply Outcome.forM_eq_ok.mpr
  induction h with
  | nil => simp
  | cons hkey haccepted _ ih =>
      refine List.forall_mem_cons.mpr ⟨?_, ih⟩
      simp only [Outcome.bind_eq_ok, Outcome.ofOption_eq_ok, haccepted.keysetId, haccepted.amount]
      exact ⟨keyset, hkeyset, _, hkey, haccepted.message⟩

/-- Signing the messages of pre-mint secrets and constructing proofs from the signatures gives one
proof for each pre-mint, in order, and everything verifies. -/
theorem issuance_round_trip (hkeyset : keysets keysetId = some keyset)
    (hactive : keyset.active = true) {premints : PreMintSecrets q G}
    (hbuilt : premints.Built curve keysetId)
    (hkeys : ∀ p ∈ premints.secrets, (keyset.keys p.amount).isSome) {nonces : Nat → SecretKey q}
    (hnonces : NoncesFit curve keyset nonces premints.secrets) :
    ∃ signatures proofs,
      blindSign curve keysets nonces premints.blindedMessages = .ok signatures ∧
      constructProofs signatures premints.rs premints.secretTexts (keyset.publicKeys curve) =
        .ok proofs ∧
      Issued curve keysetId keyset premints.secrets signatures proofs ∧
      verifyProofs curve keysets proofs = .ok () := by
  obtain ⟨signatures, proofs, hsign, hconstruct, hissued⟩ :=
    exists_issued hkeyset hactive hbuilt.blinded hkeys hnonces
  exact ⟨signatures, proofs, hsign, hconstruct, hissued, hissued.verifyProofs hkeyset⟩

end RoundTrip

/-! ## A group of three elements -/

def pointOne : Point (ZMod 3) := ⟨1, by decide⟩

def pointTwo : Point (ZMod 3) := ⟨2, by decide⟩

def keyOne : SecretKey 3 := ⟨1, by decide⟩

def keyTwo : SecretKey 3 := ⟨2, by decide⟩

/-- The integers modulo three, where every secret hashes to the generator. -/
def threeCurve : Curve (ZMod 3) where
  generator := pointOne
  hashToCurve _ := some pointOne
  hashE _ := 1

/-- A keyset with keys for one and for two. -/
def threeKeyset : MintKeySet 3 where
  active := true
  keys amount := if amount.toNat = 1 then some keyOne
    else if amount.toNat = 2 then some keyTwo else none

def threePremint (amount : Amount) (secret : String) : PreMint 3 (ZMod 3) where
  blindedMessage := ⟨amount, .v1 0, pointTwo⟩
  secret := secret
  r := keyOne
  amount := amount

def threeNonces (i : Nat) : SecretKey 3 := if i = 0 then keyTwo else keyOne

theorem built_three (amount : Amount) (secret : String) :
    PreMintSecrets.Built threeCurve (.v1 0) ⟨[threePremint amount secret], .v1 0⟩ := by
  have hmake : PreMintSecrets.make threeCurve (.v1 0) [(amount, secret, keyOne)] =
      .ok ⟨[threePremint amount secret], .v1 0⟩ := rfl
  exact .make hmake

/-- Two lists of pre-mint secrets are combined. -/
theorem issuance_round_trip_three :
    let first : PreMintSecrets 3 (ZMod 3) := ⟨[threePremint ⟨2, by decide⟩ "a"], .v1 0⟩
    let premints := first.combine ⟨[threePremint ⟨1, by decide⟩ "b"], .v1 0⟩
    ∃ signatures proofs,
      blindSign threeCurve (fun _ => some threeKeyset) threeNonces premints.blindedMessages =
        .ok signatures ∧
      constructProofs signatures premints.rs premints.secretTexts
        (threeKeyset.publicKeys threeCurve) = .ok proofs ∧
      Issued threeCurve (.v1 0) threeKeyset premints.secrets signatures proofs ∧
      verifyProofs threeCurve (fun _ => some threeKeyset) proofs = .ok () := by
  intro first premints
  apply issuance_round_trip rfl rfl ((built_three _ _).combine (built_three _ _))
  · intro p hp
    fin_cases hp <;> decide
  · intro i p key hget hkey
    match i, hget with
    | 0, hget =>
        cases hget
        cases hkey
        unfold NonceFits
        decide
    | 1, hget =>
        cases hget
        cases hkey
        unfold NonceFits
        decide

end Dhke

end Cdk
