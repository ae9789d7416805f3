import Cdk.Nuts.Types

/-!
# Texts of numbers and keys

The texts that signatures, hashes, keys and numbers are written as, and that
the parsers read them back. A hexadecimal text of fixed width determines the
number modulo a power of sixteen.
-/

namespace Cdk

open Lib

/-! ## Hexadecimal numbers of fixed width -/

/-- Reading fixed-width digits back, most significant first. -/
theorem foldl_digits (b n width acc : Nat) :
    (List.range width).reverse.foldl (fun acc i => acc * b + n / b ^ i % b) acc =
      acc * b ^ width + n % b ^ width := by
  induction width generalizing acc with
  | zero => simp [Nat.mod_one]
  | succ width ih =>
      rw [List.range_succ, List.reverse_append, List.reverse_singleton, List.singleton_append,
        List.foldl_cons, ih, Nat.pow_succ, Nat.mod_mul]
      ring

/-- The digit characters carry their values. -/
theorem hexVal_digitChar {d : Nat} (hd : d < 16) : hexVal (Nat.digitChar d) = some d := by
  have hall : ∀ d : Fin 16, hexVal (Nat.digitChar d) = some d.val := by decide
  exact hall ⟨d, hd⟩

theorem toList_hexDigits (digits n : Nat) : (hexDigits digits n).toList =
    (List.range digits).reverse.map fun i => Nat.digitChar (n / 16 ^ i % 16) := by
  simp [hexDigits]

@[simp] theorem length_hexDigits (digits n : Nat) :
    (hexDigits digits n).toList.length = digits := by
  simp [toList_hexDigits]

private theorem foldlM_hexVal (n : Nat) (positions : List Nat) (acc : Nat) :
    (positions.map fun i => Nat.digitChar (n / 16 ^ i % 16)).foldlM
        (fun acc c => (hexVal c).map (acc * 16 + ·)) acc =
      some (positions.foldl (fun acc i => acc * 16 + n / 16 ^ i % 16) acc) := by
  induction positions generalizing acc with
  | nil => rfl
  | cons i rest ih =>
      have hd : n / 16 ^ i % 16 < 16 := Nat.mod_lt _ (by decide)
      rw [List.map_cons, List.foldlM_cons, hexVal_digitChar hd, Option.map_some,
        Option.bind_eq_bind, Option.bind_some, ih, List.foldl_cons]

/-- A number written with fixed width is read back modulo the width. -/
theorem parseHex_hexDigits (digits n : Nat) :
    parseHex digits (hexDigits digits n) = some (BitVec.ofNat _ n) := by
  have hpow : 16 ^ digits = 2 ^ (4 * digits) := by
    rw [Nat.pow_mul]
  rw [parseHex, if_pos (length_hexDigits digits n), toList_hexDigits, foldlM_hexVal,
    foldl_digits, Option.map_some, Nat.zero_mul, Nat.zero_add, hpow]
  congr 1
  apply BitVec.eq_of_toNat_eq
  simp

/-- `Signature::to_string`. -/
def Signature.toText (sig : Signature) : String := hexDigits 128 sig.toNat

theorem Signature.fromStr_toText (sig : Signature) :
    Signature.fromStr sig.toText = some sig := by
  rw [Signature.fromStr, Signature.toText, parseHex_hexDigits, BitVec.ofNat_toNat]
  exact congrArg some (BitVec.setWidth_eq sig)

/-- `Sha256Hash::to_string`. -/
def sha256Text (hash : BitVec 256) : String := hexDigits 64 hash.toNat

theorem parseSha256_sha256Text (hash : BitVec 256) : parseSha256 (sha256Text hash) = some hash := by
  rw [parseSha256, sha256Text, parseHex_hexDigits, BitVec.ofNat_toNat]
  exact congrArg some (BitVec.setWidth_eq hash)

theorem length_toHex (k : PublicKey) : k.toHex.toList.length = 66 := by
  cases h : k.odd <;> simp [PublicKey.toHex, h]

/-- The text of a point determines it. -/
theorem toHex_injective : Function.Injective PublicKey.toHex := by
  rintro ⟨odd, x⟩ ⟨odd', x'⟩ h
  have hlist := congrArg String.toList h
  have hodd : odd = odd' := by
    cases odd <;> cases odd' <;> simp [PublicKey.toHex] at hlist ⊢
  subst hodd
  rw [PublicKey.toHex, PublicKey.toHex, String.toList_append, String.toList_append] at hlist
  have htail := String.toList_inj.mp (List.append_cancel_left hlist)
  have hx : some x = some x' := by
    rw [← parseSha256_sha256Text x, ← parseSha256_sha256Text x', sha256Text, sha256Text, htail]
  cases hx
  rfl

/-- The 33 bytes of a compressed point. -/
def PublicKey.toBytes (k : PublicKey) : List UInt8 :=
  (if k.odd then 3 else 2) ::
    (List.range 32).reverse.map fun i => UInt8.ofNat (k.x.toNat / 256 ^ i % 256)

/-! ## Decimal numbers -/

/-- The text of a `u64` is read back. -/
theorem parseU64_toString {n : Nat} (hn : n < 2 ^ 64) : parseU64 (toString n) = some n := by
  have hdigit : ∀ c ∈ Nat.toDigits 10 n, c.isDigit = true := fun c hc =>
    Nat.isDigit_of_mem_toDigits (by decide) (by decide) hc
  have hvalue :
      (Nat.toDigits 10 n).foldl (fun acc c => acc * 10 + (c.toNat - '0'.toNat)) 0 = n := by
    have h := Nat.ofDigitChars_toDigits (b := 10) (n := n) (by decide) (by decide)
    rw [Nat.ofDigitChars_eq_foldl] at h
    simpa [Nat.mul_comm] using h
  unfold parseU64
  rw [Nat.toString_eq_ofList_toDigits, String.toList_ofList]
  dsimp only
  split
  next rest heq =>
    -- a plus sign is no digit
    have hc := hdigit '+' (heq ▸ List.mem_cons_self)
    exact absurd hc (by decide)
  next =>
    rw [hvalue, if_pos ⟨Nat.toDigits_ne_nil, List.all_eq_true.mpr hdigit⟩, if_pos hn]

/-! ## Hexadecimal bytes -/

/-- Errors of `util::hex`. -/
inductive HexError where
  | invalidHexCharacter (c : UInt8) (index : Nat)
  | oddLength
deriving DecidableEq, Repr

/-- `hex::val`. -/
def hexByteVal (c : UInt8) (index : Nat) : Outcome HexError UInt8 :=
  if 65 ≤ c ∧ c ≤ 70 then .ok (c - 65 + 10)
  else if 97 ≤ c ∧ c ≤ 102 then .ok (c - 97 + 10)
  else if 48 ≤ c ∧ c ≤ 57 then .ok (c - 48)
  else .err (.invalidHexCharacter c index)

/-- The loop of `hex::decode` from an index on. -/
def hexDecodeFrom (index : Nat) : List UInt8 → Outcome HexError (List UInt8)
  | high :: low :: rest => do
      let high ← hexByteVal high index
      let low ← hexByteVal low (index + 1)
      let bytes ← hexDecodeFrom (index + 2) rest
      .ok ((high <<< 4 ||| low) :: bytes)
  | _ => .ok []

/-- `hex::decode`. -/
def hexDecode (hex : String) : Outcome HexError (List UInt8) :=
  if (utf8 hex).length % 2 = 0 then hexDecodeFrom 0 (utf8 hex) else .err .oddLength

/-- Two characters give one byte. -/
theorem length_hexDecodeFrom {index : Nat} {hex bytes : List UInt8}
    (h : hexDecodeFrom index hex = .ok bytes) : bytes.length = hex.length / 2 := by
  induction index, hex using hexDecodeFrom.induct generalizing bytes with
  | case1 index high low rest ih =>
      simp only [hexDecodeFrom, Outcome.bind_eq_ok, Outcome.ok.injEq] at h
      obtain ⟨hi, -, lo, -, tail, htail, rfl⟩ := h
      rw [List.length_cons, ih htail, List.length_cons, List.length_cons]
      omega
  | case2 hex index hshort =>
      match hex, hshort with
      | [], _ =>
          cases h
          rfl
      | [_], _ =>
          cases h
          simp
      | high :: low :: rest, hshort => exact absurd rfl (hshort high low rest)

/-- Decoding halves the length, so it changes every text but the empty one. -/
theorem hexDecode_eq_utf8 {hex : String} :
    hexDecode hex = .ok (utf8 hex) ↔ hex = "" := by
  constructor
  · intro h
    unfold hexDecode at h
    split at h
    next heven =>
      have hlen := length_hexDecodeFrom h
      have hnil : utf8 hex = [] := List.eq_nil_of_length_eq_zero (by omega)
      rw [utf8, Array.toList_eq_nil_iff] at hnil
      apply String.toByteArray_inj.mp
      exact ByteArray.ext hnil
    next => cases h
  · rintro rfl
    rfl

end Cdk
