import Cdk.Nuts.Texts

/-!
# Keyset identifiers

An identifier is a version byte and either 7 or 32 bytes of a hash over the
keys of the keyset. It is stored as bytes or as hexadecimal text, both of which
determine it, and it is folded into a `u32` to serve as an index of a BIP-32
derivation, which does not.
-/

namespace Cdk

open Lib

/-! ## Bytes -/

/-- The bytes of a number, most significant first. -/
def bytesOf (width n : Nat) : List UInt8 :=
  (List.range width).reverse.map fun i => UInt8.ofNat (n / 256 ^ i % 256)

/-- `u64::from_be_bytes`, for any number of bytes. -/
def ofBytes (bytes : List UInt8) : Nat := bytes.foldl (fun acc b => acc * 256 + b.toNat) 0

@[simp] theorem length_bytesOf (width n : Nat) : (bytesOf width n).length = width := by
  simp [bytesOf]

theorem ofBytes_bytesOf (width n : Nat) : ofBytes (bytesOf width n) = n % 256 ^ width := by
  have hbyte : ∀ i, (UInt8.ofNat (n / 256 ^ i % 256)).toNat = n / 256 ^ i % 256 := by
    intro i
    rw [UInt8.toNat_ofNat']
    exact Nat.mod_mod_of_dvd _ (Nat.dvd_refl 256)
  rw [ofBytes, bytesOf, List.foldl_map]
  simp only [hbyte]
  rw [foldl_digits, Nat.zero_mul, Nat.zero_add]

/-- As many bytes as a number has determine it. -/
theorem eq_of_bytesOf {width w : Nat} {a b : BitVec w} (hpow : 256 ^ width = 2 ^ w)
    (h : bytesOf width a.toNat = bytesOf width b.toNat) : a = b := by
  have hvalue := congrArg ofBytes h
  rw [ofBytes_bytesOf, ofBytes_bytesOf, hpow, Nat.mod_eq_of_lt a.isLt,
    Nat.mod_eq_of_lt b.isLt] at hvalue
  exact BitVec.eq_of_toNat_eq hvalue

theorem PublicKey.toBytes_injective : Function.Injective PublicKey.toBytes := by
  rintro ⟨odd, x⟩ ⟨odd', x'⟩ h
  obtain ⟨hparity, hx⟩ := List.cons.inj h
  have hodd : odd = odd' := by
    cases odd <;> cases odd' <;> simp at hparity ⊢
  rw [hodd, @eq_of_bytesOf 32 256 x x' (by decide) hx]

/-! ## Identifiers as bytes and as text -/

namespace Id

/-- `Id::to_bytes`. -/
def toBytes : Id → List UInt8
  | .v1 bytes => 0 :: bytesOf 7 bytes.toNat
  | .v2 bytes => 1 :: bytesOf 32 bytes.toNat

/-- `Id::to_string`. -/
def toText : Id → String
  | .v1 bytes => "00" ++ hexDigits 14 bytes.toNat
  | .v2 bytes => "01" ++ hexDigits 64 bytes.toNat

/-- `Id::from_str`: the version and as many digits as it asks for. -/
def fromStr (s : String) : Option Id :=
  match s.toList with
  | '0' :: '0' :: digits => (parseHex 14 (String.ofList digits)).map .v1
  | '0' :: '1' :: digits => (parseHex 64 (String.ofList digits)).map .v2
  | _ => none

/-- `u32::from`. -/
def toU32 (id : Id) : Nat := ofBytes (id.toBytes.take 8) % (2 ^ 31 - 1)

theorem fromStr_toText (id : Id) : fromStr id.toText = some id := by
  have hread : ∀ digits (bits : BitVec (4 * digits)),
      parseHex digits (String.ofList (hexDigits digits bits.toNat).toList) = some bits := by
    intro digits bits
    rw [String.ofList_toList, parseHex_hexDigits, BitVec.ofNat_toNat, BitVec.setWidth_eq]
  cases id with
  | v1 bytes =>
      have htext : (toText (.v1 bytes)).toList =
          '0' :: '0' :: (hexDigits 14 bytes.toNat).toList := by
        rw [toText, String.toList_append]
        rfl
      unfold fromStr
      rw [htext]
      exact congrArg (Option.map Id.v1) (hread 14 bytes)
  | v2 bytes =>
      have htext : (toText (.v2 bytes)).toList =
          '0' :: '1' :: (hexDigits 64 bytes.toNat).toList := by
        rw [toText, String.toList_append]
        rfl
      unfold fromStr
      rw [htext]
      exact congrArg (Option.map Id.v2) (hread 64 bytes)

theorem toText_injective : Function.Injective toText := by
  intro a b h
  have hread := congrArg fromStr h
  rw [fromStr_toText, fromStr_toText] at hread
  exact Option.some.inj hread

theorem toBytes_injective : Function.Injective toBytes := by
  intro a b h
  cases a with
  | v1 bytes =>
      cases b with
      | v1 bytes' => rw [eq_of_bytesOf (by decide) (List.cons.inj h).2]
      | v2 bytes' => exact absurd (List.cons.inj h).1 (by decide)
  | v2 bytes =>
      cases b with
      | v1 bytes' => exact absurd (List.cons.inj h).1 (by decide)
      | v2 bytes' => rw [eq_of_bytesOf (by decide) (List.cons.inj h).2]

end Id

/-! ## Identifiers of keys -/

/-- `str::to_lowercase` and `str::to_uppercase`, which follow Unicode. -/
structure Casing where
  lowercase : String → String
  uppercase : String → String

/-- `CurrencyUnit::to_string`. -/
def CurrencyUnit.toText (casing : Casing) : CurrencyUnit → String
  | .sat => "sat"
  | .msat => "msat"
  | .usd => "usd"
  | .eur => "eur"
  | .auth => "auth"
  | .custom name => casing.lowercase name

/-- The public keys of a keyset by amount. -/
abbrev Keys := List (Amount × PublicKey)

/-- The bytes of the keys in the order of their amounts. -/
def Keys.concat (keys : Keys) : List UInt8 :=
  (keys.mergeSort fun a b => a.1.toNat ≤ b.1.toNat).flatMap fun entry => entry.2.toBytes

/-- `Id::v1_from_keys`. -/
def Id.v1FromKeys (env : Env) (keys : Keys) : Id :=
  .v1 ((env.sha256 keys.concat).extractLsb' 200 56)

/-- `Id::v2_from_data`. -/
def Id.v2FromData (env : Env) (casing : Casing) (keys : Keys) (unit : CurrencyUnit)
    (expiry : Option Nat) : Id :=
  let unitBytes := utf8 "unit:" ++ utf8 (casing.lowercase (unit.toText casing))
  let expiryBytes := match expiry with
    | some expiry => utf8 "final_expiry:" ++ utf8 (toString expiry)
    | none => []
  .v2 (env.sha256 (keys.concat ++ unitBytes ++ expiryBytes))

/-- A keyset with its public keys, `KeySet` of NUT-02. -/
structure PublicKeySet where
  id : Id
  unit : CurrencyUnit
  keys : Keys
  finalExpiry : Option Nat
deriving DecidableEq, Repr

/-- `KeySet::verify_id`. -/
def PublicKeySet.verifyId (env : Env) (casing : Casing) (keyset : PublicKeySet) : Bool :=
  let keysId := match keyset.id with
    | .v1 _ => Id.v1FromKeys env keyset.keys
    | .v2 _ => Id.v2FromData env casing keyset.keys keyset.unit keyset.finalExpiry
  keysId.toU32 = keyset.id.toU32 && keysId = keyset.id

/-- What a mint tells about a keyset without its keys. -/
structure KeySetInfo where
  id : Id
  unit : CurrencyUnit
  active : Bool
  inputFeePpk : Nat
  finalExpiry : Option Nat
deriving DecidableEq, Repr

end Cdk
