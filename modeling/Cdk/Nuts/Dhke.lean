import Cdk.Lib.Blinding
import Cdk.Lib.Outcome
import Cdk.Nuts.Types
import Mathlib.Algebra.Field.ZMod
import Mathlib.Data.ZMod.Basic

/-!
# Blind signatures with proofs of equality

Blinding, signing, unblinding and verifying, and the two forms of the DLEQ
proof, over any group of prime order. The library has no point at infinity and
no scalar zero: points and secret keys are nonzero, and an operation that would
leave them is an error. The two hash functions are arbitrary.
-/

namespace Cdk

open Lib

namespace Dhke

/-- A `PublicKey`, which is never the identity. -/
abbrev Point (G : Type) [AddCommGroup G] := { p : G // p ≠ 0 }

/-- A `SecretKey`, which is never zero. -/
abbrev SecretKey (q : ℕ) := { k : ZMod q // k ≠ 0 }

/-- The generator and the two hash functions; 32 bytes are the number they encode. -/
structure Curve (G : Type) [AddCommGroup G] where
  generator : Point G
  hashToCurve : List UInt8 → Option (Point G)
  hashE : List (Point G) → Nat

/-- The errors of the modules `dhke` and `nut12` and of the signatory. -/
inductive Error where
  | tokenNotVerified
  | noValidPoint
  | secp256k1
  | lengths
  | noKey
  | missingDleqProof
  | invalidDleqProof
  | unknownKeySet
  | inactiveKeyset
deriving DecidableEq, Repr

section Operations

variable {q : ℕ} [Fact q.Prime] {G : Type} [AddCommGroup G] [Module (ZMod q) G]

/-! ## Points and keys -/

/-- `PublicKey::negate`. -/
def negate (a : Point G) : Point G := ⟨-a.1, neg_ne_zero.mpr a.2⟩

/-- `PublicKey::mul_tweak`, which a nonzero scalar does not make fail. -/
def mulTweak (a : Point G) (k : SecretKey q) : Point G := ⟨k.1 • a.1, smul_ne_zero k.2 a.2⟩

@[simp] theorem mulTweak_val (a : Point G) (k : SecretKey q) : (mulTweak a k).1 = k.1 • a.1 := rfl

namespace SecretKey

/-- `SecretKey::public_key`. -/
def publicKey (curve : Curve G) (k : SecretKey q) : Point G := mulTweak curve.generator k

/-- `SecretKey::from_slice`. -/
def fromSlice (bytes : Nat) : Option (SecretKey q) :=
  if h : 0 < bytes ∧ bytes < q then
    some ⟨bytes, fun hzero => h.1.ne' (Nat.eq_zero_of_dvd_of_lt
      ((ZMod.natCast_eq_zero_iff bytes q).mp hzero) h.2)⟩
  else none

/-- `SecretKey::to_secret_bytes`. -/
def toSecretBytes (k : SecretKey q) : Nat := k.1.val

/-- `SecretKey::mul_tweak`. -/
def mul (a b : SecretKey q) : SecretKey q := ⟨a.1 * b.1, mul_ne_zero a.2 b.2⟩

/-- `SecretKey::add_tweak`. -/
def add (a b : SecretKey q) : Outcome Error (SecretKey q) :=
  if h : a.1 + b.1 = 0 then .err .secp256k1 else .ok ⟨a.1 + b.1, h⟩

theorem fromSlice_eq_some {bytes : Nat} {k : SecretKey q} :
    fromSlice bytes = some k ↔ 0 < bytes ∧ bytes < q ∧ k.1 = bytes := by
  unfold fromSlice
  split
  next h => rw [Option.some.injEq, Subtype.ext_iff, eq_comm, ← and_assoc, and_iff_right h]
  next h =>
    constructor
    · intro hk
      cases hk
    · rintro ⟨hpos, hlt, -⟩
      exact absurd ⟨hpos, hlt⟩ h

/-- Bytes that are a secret key are read back from it. -/
theorem toSecretBytes_fromSlice {bytes : Nat} {k : SecretKey q} (h : fromSlice bytes = some k) :
    toSecretBytes k = bytes := by
  obtain ⟨-, hlt, hk⟩ := fromSlice_eq_some.mp h
  rw [toSecretBytes, hk, ZMod.val_natCast_of_lt hlt]

theorem add_eq_ok {a b c : SecretKey q} : add a b = .ok c ↔ c.1 = a.1 + b.1 := by
  unfold add
  split
  next h =>
    rw [h]
    constructor
    · intro hc
      cases hc
    · intro hc
      exact absurd hc c.2
  next => rw [Outcome.ok.injEq, Subtype.ext_iff, eq_comm]

end SecretKey

variable [DecidableEq G]

/-- `PublicKey::combine`. -/
def combine (a b : Point G) : Outcome Error (Point G) :=
  if h : a.1 + b.1 = 0 then .err .secp256k1 else .ok ⟨a.1 + b.1, h⟩

theorem combine_eq_ok {a b c : Point G} : combine a b = .ok c ↔ c.1 = a.1 + b.1 := by
  unfold combine
  split
  next h =>
    rw [h]
    constructor
    · intro hc
      cases hc
    · intro hc
      exact absurd hc c.2
  next => rw [Outcome.ok.injEq, Subtype.ext_iff, eq_comm]

/-! ## Blinding and signing -/

/-- `blind_message` for a blinding factor. -/
def blindMessage (curve : Curve G) (secret : List UInt8) (r : SecretKey q) :
    Outcome Error (Point G) := do
  let y ← Outcome.ofOption .noValidPoint (curve.hashToCurve secret)
  combine y (SecretKey.publicKey curve r)

/-- `unblind_message`. -/
def unblindMessage (blindedKey : Point G) (r : SecretKey q) (mintPubkey : Point G) :
    Outcome Error (Point G) :=
  combine blindedKey (negate (mulTweak mintPubkey r))

/-- `sign_message`. -/
def signMessage (k : SecretKey q) (blindedMessage : Point G) : Point G := mulTweak blindedMessage k

/-- `verify_message`. -/
def verifyMessage (curve : Curve G) (a : SecretKey q) (unblindedMessage : Point G)
    (msg : List UInt8) : Outcome Error Unit := do
  let y ← Outcome.ofOption .noValidPoint (curve.hashToCurve msg)
  Outcome.ensure (unblindedMessage = mulTweak y a) .tokenNotVerified

/-! ## Proofs of equality -/

structure BlindSignatureDleq (q : ℕ) where
  e : SecretKey q
  s : SecretKey q

structure ProofDleq (q : ℕ) where
  e : SecretKey q
  s : SecretKey q
  r : SecretKey q

/-- `verify_dleq`. -/
def verifyDleq (curve : Curve G) (blindedMessage blindedSignature : Point G) (e s : SecretKey q)
    (mintPubkey : Point G) : Outcome Error Unit := do
  let r1 ← combine (SecretKey.publicKey curve s) (negate (mulTweak mintPubkey e))
  let r2 ← combine (mulTweak blindedMessage s) (negate (mulTweak blindedSignature e))
  let hashE := curve.hashE [r1, r2, mintPubkey, blindedSignature]
  Outcome.ensure (SecretKey.toSecretBytes e = hashE) .invalidDleqProof

/-- `calculate_dleq` for a random nonce. -/
def calculateDleq (curve : Curve G) (nonce : SecretKey q) (blindedSignature blindedMessage : Point G)
    (mintSecretKey : SecretKey q) : Outcome Error (BlindSignatureDleq q) := do
  let r1 := SecretKey.publicKey curve nonce
  let r2 := mulTweak blindedMessage nonce
  let e ← Outcome.ofOption .secp256k1 (SecretKey.fromSlice
    (curve.hashE [r1, r2, SecretKey.publicKey curve mintSecretKey, blindedSignature]))
  let s ← SecretKey.add nonce (SecretKey.mul e mintSecretKey)
  .ok ⟨e, s⟩

/-! ## What the operations compute -/

section Results

variable {curve : Curve G} {secret : List UInt8} {k r : SecretKey q} {a b c : Point G}

theorem blindMessage_eq_ok : blindMessage curve secret r = .ok b ↔
    ∃ y, curve.hashToCurve secret = some y ∧ b.1 = Blinding.blind curve.generator.1 y.1 r.1 := by
  simp only [blindMessage, Outcome.bind_eq_ok, Outcome.ofOption_eq_ok, combine_eq_ok]
  rfl

theorem unblindMessage_eq_ok :
    unblindMessage b r a = .ok c ↔ c.1 = Blinding.unblind a.1 b.1 r.1 :=
  combine_eq_ok

theorem verifyMessage_eq_ok {u : Unit} : verifyMessage curve k c secret = .ok u ↔
    ∃ y, curve.hashToCurve secret = some y ∧ c.1 = k.1 • y.1 := by
  simp only [verifyMessage, Outcome.bind_eq_ok, Outcome.ofOption_eq_ok, Outcome.ensure_eq_ok,
    decide_eq_true_eq, Subtype.ext_iff, mulTweak_val]

/-- The signature on a message unblinds, with the secret and the blinding factor of a message, to a
point that the mint accepts exactly if it is the signature on that very message. -/
theorem unblind_accepted_iff {own : Point G} (hown : blindMessage curve secret r = .ok own) :
    (∃ c, unblindMessage (signMessage k b) r (SecretKey.publicKey curve k) = .ok c ∧
      verifyMessage curve k c secret = .ok ()) ↔ b = own := by
  obtain ⟨y, hy, hvalue⟩ := blindMessage_eq_ok.mp hown
  have hiff := Blinding.unblind_sign_eq_iff (g := curve.generator.1) (y := y.1) (b := b.1)
    (r := r.1) k.2
  rw [Subtype.ext_iff, hvalue, ← hiff]
  constructor
  · rintro ⟨c, hunblind, hverify⟩
    obtain ⟨y', hy', hc⟩ := verifyMessage_eq_ok.mp hverify
    rw [hy, Option.some.injEq] at hy'
    rw [hy', ← hc]
    exact (unblindMessage_eq_ok.mp hunblind).symm
  · intro heq
    exact ⟨mulTweak y k, unblindMessage_eq_ok.mpr heq.symm, verifyMessage_eq_ok.mpr ⟨y, hy, rfl⟩⟩

/-- The hash of a proof of equality is a secret key, and the response is not zero. -/
def NonceFits (curve : Curve G) (nonce : SecretKey q) (b : Point G) (k : SecretKey q) : Prop :=
  let bytes := curve.hashE [SecretKey.publicKey curve nonce, mulTweak b nonce,
    SecretKey.publicKey curve k, signMessage k b]
  0 < bytes ∧ bytes < q ∧ nonce.1 + bytes * k.1 ≠ 0

omit [DecidableEq G] in
theorem exists_calculateDleq {nonce : SecretKey q} (h : NonceFits curve nonce b k) :
    ∃ dleq, calculateDleq curve nonce (signMessage k b) b k = .ok dleq := by
  obtain ⟨hpos, hlt, hne⟩ := h
  obtain ⟨e, he⟩ : ∃ e : SecretKey q, SecretKey.fromSlice (curve.hashE
      [SecretKey.publicKey curve nonce, mulTweak b nonce, SecretKey.publicKey curve k,
        signMessage k b]) = some e := by
    unfold SecretKey.fromSlice
    rw [dif_pos ⟨hpos, hlt⟩]
    exact ⟨_, rfl⟩
  have hvalue := (SecretKey.fromSlice_eq_some.mp he).2.2
  refine ⟨⟨e, ⟨nonce.1 + e.1 * k.1, hvalue ▸ hne⟩⟩, ?_⟩
  simp only [calculateDleq, Outcome.bind_eq_ok, Outcome.ofOption_eq_ok]
  exact ⟨e, he, _, SecretKey.add_eq_ok.mpr rfl, rfl⟩

/-- A proof of equality for a signature verifies. -/
theorem verifyDleq_calculateDleq {nonce : SecretKey q} {dleq : BlindSignatureDleq q}
    (h : calculateDleq curve nonce (signMessage k b) b k = .ok dleq) :
    verifyDleq curve b (signMessage k b) dleq.e dleq.s (SecretKey.publicKey curve k) = .ok () := by
  simp only [calculateDleq, Outcome.bind_eq_ok, Outcome.ofOption_eq_ok, Outcome.ok.injEq] at h
  obtain ⟨e, he, s, hs, rfl⟩ := h
  have hresponse : s.1 = Blinding.respond nonce.1 e.1 k.1 := SecretKey.add_eq_ok.mp hs
  have hcommit : ∀ p : Point G, combine (mulTweak p s) (negate (mulTweak (mulTweak p k) e)) =
      .ok (mulTweak p nonce) := by
    intro p
    apply combine_eq_ok.mpr
    change nonce.1 • p.1 = s.1 • p.1 + -(e.1 • (k.1 • p.1))
    rw [hresponse, Blinding.respond_smul_sub]
  simp only [verifyDleq, Outcome.bind_eq_ok, Outcome.ensure_eq_ok, decide_eq_true_eq]
  exact ⟨_, hcommit curve.generator, _, hcommit b, SecretKey.toSecretBytes_fromSlice he⟩

end Results

end Operations

end Dhke

end Cdk
