import Mathlib.Algebra.Module.Torsion.Field
import Mathlib.Algebra.Field.Basic

/-!
# Blind signatures in a module over a field

A signature on a point is its product with the secret scalar. A point is
blinded by a multiple of the generator, which the public key removes from the
signature again. That a signature and a public key have the same scalar is shown
by a response to a challenge, from which a verifier computes the commitments.
-/

namespace Lib

namespace Blinding

variable {F G : Type*} [Field F] [AddCommGroup G] [Module F G]

/-- Hide a point behind a multiple of the generator. -/
def blind (g y : G) (r : F) : G := y + r • g

/-- Remove what blinding has added from a signature, by the public key. -/
def unblind (key c : G) (r : F) : G := c + -(r • key)

/-- What unblinding a signature on some point gives. -/
theorem unblind_sign (g b : G) (k r : F) : unblind (k • g) (k • b) r = k • (b - r • g) := by
  rw [unblind, smul_sub, smul_comm r k g, sub_eq_add_neg]

/-- A signature on a point unblinds to the signature on another one exactly if the first point is
the other one blinded. -/
theorem unblind_sign_eq_iff {g y b : G} {k r : F} (hk : k ≠ 0) :
    unblind (k • g) (k • b) r = k • y ↔ b = blind g y r := by
  rw [unblind_sign, smul_right_inj hk, sub_eq_iff_eq_add, blind]

/-- Blinding an unblinded signature with the public key gives the signature back. -/
theorem blind_unblind (key c : G) (r : F) : blind key (unblind key c r) r = c := by
  rw [blind, unblind, neg_add_cancel_right]

/-- The response to a challenge for a commitment. -/
def respond (nonce challenge k : F) : F := nonce + challenge * k

/-- From a response and a multiple of a point by the secret scalar the multiple by the nonce is
computed, for every point. -/
theorem respond_smul_sub (nonce challenge k : F) (p : G) :
    respond nonce challenge k • p + -(challenge • (k • p)) = nonce • p := by
  rw [respond, add_smul, mul_smul, add_neg_cancel_right]

end Blinding

end Lib
