import Cdk.Amount

/-!
# Protocol types

The values that requests and database rows are made of. A public key is a
compressed point: the parity of its `y` coordinate and its `x` coordinate.
Everything the mint takes from outside the repository (JSON, curve and hash
libraries) is collected in one environment of functions.
-/

namespace Cdk

/-- A compressed point of the curve. -/
structure PublicKey where
  odd : Bool
  x : BitVec 256
deriving DecidableEq, Repr

/-- The 64 bytes of a Schnorr signature. -/
abbrev Signature := BitVec 512

/-- The identifier of a keyset, of either version. -/
inductive Id where
  | v1 (bytes : BitVec 56)
  | v2 (bytes : BitVec 256)
deriving DecidableEq, Repr

/-- Random identifiers never collide here, so they are drawn from the natural numbers. -/
abbrev Uuid := Nat

/-- A quote identifier of either kind. -/
inductive QuoteId where
  | base64 (text : String)
  | uuid (value : Uuid)
deriving DecidableEq, Repr

inductive CurrencyUnit where
  | sat
  | msat
  | usd
  | eur
  | auth
  | custom (name : String)
deriving DecidableEq, Repr

inductive PaymentMethod where
  | bolt11
  | bolt12
  | custom (name : String)
deriving DecidableEq, Repr

/-- The state of a proof. -/
inductive State where
  | spent
  | unspent
  | pending
  | reserved
  | pendingSpent
deriving DecidableEq, Repr

inductive MeltQuoteState where
  | unpaid
  | paid
  | pending
  | unknown
  | failed
deriving DecidableEq, Repr

inductive MintQuoteState where
  | unpaid
  | paid
  | issued
deriving DecidableEq, Repr

structure HtlcWitness where
  preimage : String
  signatures : Option (List String)
deriving DecidableEq, Repr

structure P2pkWitness where
  signatures : List String
deriving DecidableEq, Repr

inductive Witness where
  | htlc (witness : HtlcWitness)
  | p2pk (witness : P2pkWitness)
deriving DecidableEq, Repr

def Witness.signatures : Witness → Option (List String)
  | .p2pk w => some w.signatures
  | .htlc w => w.signatures

structure Proof where
  amount : Amount
  keysetId : Id
  secret : String
  c : PublicKey
  witness : Option Witness
deriving DecidableEq, Repr

structure BlindedMessage where
  amount : Amount
  keysetId : Id
  blindedSecret : PublicKey
deriving DecidableEq, Repr

structure BlindSignature where
  amount : Amount
  keysetId : Id
  c : PublicKey
deriving DecidableEq, Repr

structure SwapRequest where
  inputs : List Proof
  outputs : List BlindedMessage
deriving DecidableEq, Repr

structure MeltRequest where
  quote : QuoteId
  inputs : List Proof
  outputs : Option (List BlindedMessage)
deriving DecidableEq, Repr

/-! ## Texts -/

/-- The bytes of a text. -/
def utf8 (s : String) : List UInt8 := s.toUTF8.data.toList

/-- The value of a hexadecimal digit of either case. -/
def hexVal (c : Char) : Option Nat :=
  if '0' ≤ c ∧ c ≤ '9' then some (c.toNat - '0'.toNat)
  else if 'a' ≤ c ∧ c ≤ 'f' then some (c.toNat - 'a'.toNat + 10)
  else if 'A' ≤ c ∧ c ≤ 'F' then some (c.toNat - 'A'.toNat + 10)
  else none

/-- A text of exactly `digits` hexadecimal digits. -/
def parseHex (digits : Nat) (s : String) : Option (BitVec (4 * digits)) :=
  if s.toList.length = digits then
    (s.toList.foldlM (fun acc c => (hexVal c).map (acc * 16 + ·)) 0).map (BitVec.ofNat _)
  else none

/-- `Signature::from_str`. -/
def Signature.fromStr (s : String) : Option Signature := parseHex 128 s

/-- `Sha256Hash::from_str`. -/
def parseSha256 (s : String) : Option (BitVec 256) := parseHex 64 s

/-- `str::parse::<u64>`: decimal digits after an optional plus sign, without overflow. -/
def parseU64 (s : String) : Option Nat :=
  let digits := match s.toList with
    | '+' :: rest => rest
    | all => all
  if digits ≠ [] ∧ digits.all (fun c => c.isDigit) then
    let n := digits.foldl (fun acc c => acc * 10 + (c.toNat - '0'.toNat)) 0
    if n < 2 ^ 64 then some n else none
  else none

/-- The lower-case hexadecimal digits of a number, most significant first. -/
def hexDigits (digits n : Nat) : String :=
  String.ofList ((List.range digits).reverse.map fun i => Nat.digitChar (n / 16 ^ i % 16))

/-- `PublicKey::to_hex`. -/
def PublicKey.toHex (k : PublicKey) : String :=
  (if k.odd then "03" else "02") ++ hexDigits 64 k.x.toNat

/-- The text of a quote identifier; a UUID is written with its hyphens. -/
def QuoteId.toText : QuoteId → String
  | .base64 text => text
  | .uuid v =>
      let digits := (hexDigits 32 v).toList
      String.ofList (digits.take 8 ++ '-' :: (digits.drop 8).take 4 ++ '-' ::
        (digits.drop 12).take 4 ++ '-' :: (digits.drop 16).take 4 ++ '-' :: digits.drop 20)

/-! ## NUT-10 secrets and the environment -/

/-- The kinds of spending conditions. -/
inductive Kind where
  | p2pk
  | htlc
deriving DecidableEq, Repr

structure SecretData where
  nonce : String
  data : String
  tags : Option (List (List String))
deriving DecidableEq, Repr

structure Nut10Secret where
  kind : Kind
  secretData : SecretData
deriving DecidableEq, Repr

/-- The functions of the JSON, curve and hash libraries. -/
structure Env where
  /-- Deserialise a secret as a NUT-10 secret. -/
  parseSecret : String → Option Nut10Secret
  /-- `PublicKey::from_str`. -/
  parsePublicKey : String → Option PublicKey
  /-- Verify a signature on a message digest under an x-only key. -/
  verifySchnorr : BitVec 256 → BitVec 256 → Signature → Bool
  sha256 : List UInt8 → BitVec 256
  /-- `hash_to_curve`, which gives up when no point is found. -/
  hashToCurve : List UInt8 → Option PublicKey
  /-- Sign a blinded secret with the key of a keyset for an amount. -/
  signMessage : Id → Amount → PublicKey → Option PublicKey
  /-- Verify an unblinded signature on a secret with the key of a keyset for an amount. -/
  verifyMessage : Id → Amount → PublicKey → List UInt8 → Bool

/-- `PublicKey::verify`: a Schnorr check that drops the parity of the key. -/
def PublicKey.verify (env : Env) (k : PublicKey) (msg : List UInt8) (sig : Signature) : Bool :=
  env.verifySchnorr k.x (env.sha256 msg) sig

/-- `Proof::y`. -/
def Proof.y (env : Env) (p : Proof) : Option PublicKey := env.hashToCurve (utf8 p.secret)

end Cdk
