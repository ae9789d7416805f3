import Cdk.Nuts.KeysetId

/-!
# Codecs of keyset identifiers

An identifier and a short identifier are read from bytes and from hexadecimal
text. A text is a string of UTF-8, and the code takes it apart by byte offsets:
a slice that ends inside a character panics, as does the first byte of nothing.
-/

namespace Cdk

open Lib

/-! ## Hexadecimal bytes -/

/-- `u8::to_ascii_lowercase`. -/
def asciiLowercase (b : UInt8) : UInt8 := if 65 ≤ b ∧ b ≤ 90 then b + 32 else b

/-- `hex::from_digit`, as a byte. -/
def hexDigitByte (d : UInt8) : UInt8 := if d < 10 then 48 + d else 97 + d - 10

/-- The characters of `hex::encode`, one byte each. -/
def hexEncodeBytes (bytes : List UInt8) : List UInt8 :=
  bytes.flatMap fun b : UInt8 => [hexDigitByte (b >>> 4), hexDigitByte (b &&& 15)]

/-- `hex::encode`. -/
def hexEncode (bytes : List UInt8) : String :=
  String.ofList ((hexEncodeBytes bytes).map fun b => Char.ofNat b.toNat)

/-- `hex::decode` of the bytes of a slice. -/
def hexDecodeSlice (hex : List UInt8) : Outcome HexError (List UInt8) :=
  if hex.length % 2 = 0 then hexDecodeFrom 0 hex else .err .oddLength

theorem hexDecode_eq (hex : String) : hexDecode hex = hexDecodeSlice (utf8 hex) := rfl

section Hex

variable {index : Nat} {b c d : UInt8} {hex bytes : List UInt8}

/-- A fact about all bytes is one about the numbers below 256. -/
theorem forall_uint8 {p : UInt8 → Prop} (h : ∀ n : Fin 256, p (UInt8.ofNat n.val)) (b : UInt8) :
    p b := by
  have hb := h ⟨b.toNat, b.toNat_lt⟩
  rwa [UInt8.ofNat_toNat] at hb

/-- The index of a character is only told in an error. -/
theorem hexByteVal_index : hexByteVal c index = .ok d ↔ hexByteVal c 0 = .ok d := by
  unfold hexByteVal
  split
  next => exact Iff.rfl
  next =>
    split
    next => exact Iff.rfl
    next =>
      split
      next => exact Iff.rfl
      next => simp

/-- A character has a value exactly if it is the digit of the value up to case. -/
theorem hexByteVal_eq_ok :
    hexByteVal c index = .ok d ↔ d < 16 ∧ asciiLowercase c = hexDigitByte d := by
  have hread : ∀ c, hexByteVal c 0 = .ok ((hexByteVal c 0).getD 16) →
      (hexByteVal c 0).getD 16 < 16 ∧
        asciiLowercase c = hexDigitByte ((hexByteVal c 0).getD 16) :=
    forall_uint8 (by decide +kernel)
  have hdigit : ∀ c, ∀ n : Fin 16, asciiLowercase c = hexDigitByte (UInt8.ofNat n.val) →
      hexByteVal c 0 = .ok (UInt8.ofNat n.val) := forall_uint8 (by decide +kernel)
  rw [hexByteVal_index]
  constructor
  · intro h
    have hc := hread c
    rw [h] at hc
    exact hc rfl
  · rintro ⟨hlt, h⟩
    have hd := hdigit c ⟨d.toNat, UInt8.lt_iff_toNat_lt.mp hlt⟩
    rw [UInt8.ofNat_toNat] at hd
    exact hd h

/-- Two characters are read as a byte exactly if they are its digits up to case. -/
theorem hexPair_eq_ok {high low : UInt8} :
    (∃ h l, hexByteVal high index = .ok h ∧ hexByteVal low (index + 1) = .ok l ∧
        h <<< 4 ||| l = b) ↔
      asciiLowercase high = hexDigitByte (b >>> 4) ∧
        asciiLowercase low = hexDigitByte (b &&& 15) := by
  have hjoin : ∀ b : UInt8, b >>> 4 < 16 ∧ b &&& 15 < 16 ∧ (b >>> 4) <<< 4 ||| (b &&& 15) = b :=
    forall_uint8 (by decide +kernel)
  have hsplit : ∀ h l : Fin 16, (UInt8.ofNat h <<< 4 ||| UInt8.ofNat l) >>> 4 = UInt8.ofNat h ∧
      (UInt8.ofNat h <<< 4 ||| UInt8.ofNat l) &&& 15 = UInt8.ofNat l := by decide +kernel
  simp only [hexByteVal_eq_ok]
  constructor
  · rintro ⟨h, l, ⟨hlt, hhigh⟩, ⟨llt, hlow⟩, rfl⟩
    have hparts := hsplit ⟨h.toNat, UInt8.lt_iff_toNat_lt.mp hlt⟩
      ⟨l.toNat, UInt8.lt_iff_toNat_lt.mp llt⟩
    simp only [UInt8.ofNat_toNat] at hparts
    rw [hparts.1, hparts.2]
    exact ⟨hhigh, hlow⟩
  · rintro ⟨hhigh, hlow⟩
    obtain ⟨hlt, llt, heq⟩ := hjoin b
    exact ⟨_, _, ⟨hlt, hhigh⟩, ⟨llt, hlow⟩, heq⟩

theorem hexEncodeBytes_cons (b : UInt8) (bytes : List UInt8) : hexEncodeBytes (b :: bytes) =
    hexDigitByte (b >>> 4) :: hexDigitByte (b &&& 15) :: hexEncodeBytes bytes := rfl

@[simp] theorem length_hexEncodeBytes : (hexEncodeBytes bytes).length = 2 * bytes.length := by
  induction bytes with
  | nil => rfl
  | cons b rest ih =>
      rw [hexEncodeBytes_cons, List.length_cons, List.length_cons, ih, List.length_cons]
      omega

/-- What is decoded are the bytes whose digits the characters are up to case. -/
theorem hexDecodeFrom_eq_ok (heven : hex.length % 2 = 0) :
    hexDecodeFrom index hex = .ok bytes ↔ hex.map asciiLowercase = hexEncodeBytes bytes := by
  induction index, hex using hexDecodeFrom.induct generalizing bytes with
  | case1 index high low rest ih =>
      have heven' : rest.length % 2 = 0 := by
        rw [List.length_cons, List.length_cons] at heven
        omega
      simp only [hexDecodeFrom, Outcome.bind_eq_ok, Outcome.ok.injEq, ih heven']
      cases bytes with
      | nil =>
          constructor
          · rintro ⟨_, -, _, -, _, -, h⟩
            cases h
          · intro h
            cases h
      | cons b bytes =>
          rw [hexEncodeBytes_cons, List.map_cons, List.map_cons, List.cons.injEq, List.cons.injEq,
            ← and_assoc, ← @hexPair_eq_ok index b]
          constructor
          · rintro ⟨h, hh, l, hl, tail, htail, heq⟩
            cases heq
            exact ⟨⟨h, l, hh, hl, rfl⟩, htail⟩
          · rintro ⟨⟨h, l, hh, hl, rfl⟩, htail⟩
            exact ⟨h, hh, l, hl, _, htail, rfl⟩
  | case2 hex index hshort =>
      obtain rfl : hex = [] := by
        cases hex with
        | nil => rfl
        | cons high tail =>
            cases tail with
            | nil => exact absurd heven Nat.one_ne_zero
            | cons low rest => exact absurd rfl (hshort high low rest)
      rw [hexDecodeFrom, Outcome.ok.injEq, List.map_nil]
      · constructor
        · rintro rfl
          rfl
        · intro h
          cases bytes with
          | nil => rfl
          | cons b rest => cases h
      · intro high low rest h
        cases h

theorem hexDecodeSlice_eq_ok :
    hexDecodeSlice hex = .ok bytes ↔ hex.map asciiLowercase = hexEncodeBytes bytes := by
  unfold hexDecodeSlice
  split
  next heven => exact hexDecodeFrom_eq_ok heven
  next hodd =>
    constructor
    · intro h
      cases h
    · intro h
      have hlength := congrArg List.length h
      rw [List.length_map, length_hexEncodeBytes] at hlength
      omega

theorem hexByteVal_ne_panic : hexByteVal c index ≠ .panic := by
  unfold hexByteVal
  split_ifs <;> exact nofun

theorem hexDecodeSlice_ne_panic : hexDecodeSlice hex ≠ .panic := by
  have hfrom : ∀ index, hexDecodeFrom index hex ≠ .panic := by
    intro index
    induction index, hex using hexDecodeFrom.induct with
    | case1 index high low rest ih =>
        simp only [hexDecodeFrom, Outcome.bind_ne_panic]
        exact ⟨hexByteVal_ne_panic, fun _ _ => ⟨hexByteVal_ne_panic, fun _ _ =>
          ⟨ih, fun _ _ => by rintro ⟨⟩⟩⟩⟩
    | case2 hex index hshort =>
        rw [hexDecodeFrom]
        · rintro ⟨⟩
        · exact hshort
  unfold hexDecodeSlice
  split
  next => exact hfrom 0
  next => rintro ⟨⟩

end Hex

/-! ## Versions and bytes of an identifier -/

/-- Errors of NUT-02. -/
inductive Nut02Error where
  | hexError (error : HexError)
  | length
  | unknownVersion
  | unknownShortKeysetId
  | malformedShortKeysetId
  | slice
deriving DecidableEq, Repr

inductive KeySetVersion where
  | version00
  | version01
deriving DecidableEq, Repr

namespace KeySetVersion

/-- `KeySetVersion::to_byte`. -/
def toByte : KeySetVersion → UInt8
  | .version00 => 0
  | .version01 => 1

/-- `KeySetVersion::from_byte`. -/
def fromByte (byte : UInt8) : Outcome Nut02Error KeySetVersion :=
  if byte = 0 then .ok .version00
  else if byte = 1 then .ok .version01
  else .err .unknownVersion

/-- `KeySetVersion::to_string`. -/
def toText : KeySetVersion → String
  | .version00 => "00"
  | .version01 => "01"

theorem fromByte_eq_ok {byte : UInt8} {version : KeySetVersion} :
    fromByte byte = .ok version ↔ byte = version.toByte := by
  unfold fromByte
  split
  next h => cases version <;> simp [h, toByte]
  next h =>
    split
    next h1 => cases version <;> simp [h1, toByte]
    next h1 => cases version <;> simp [h, h1, toByte]

theorem fromByte_ne_panic {byte : UInt8} : fromByte byte ≠ .panic := by
  unfold fromByte
  split_ifs <;> nofun

end KeySetVersion

theorem bytesOf_succ (width n : Nat) :
    bytesOf (width + 1) n = UInt8.ofNat (n / 256 ^ width % 256) :: bytesOf width n := by
  rw [bytesOf, List.range_succ, List.reverse_append, List.reverse_singleton, List.singleton_append,
    List.map_cons, bytesOf]

/-- The bytes of a number are those of its remainder. -/
theorem bytesOf_mod (width n : Nat) : bytesOf width (n % 256 ^ width) = bytesOf width n := by
  unfold bytesOf
  apply List.map_congr_left
  intro i hi
  rw [List.mem_reverse, List.mem_range] at hi
  have hpow : 256 ^ width = 256 ^ i * 256 ^ (width - i) := by
    rw [← Nat.pow_add]
    congr 1
    omega
  have hdvd : 256 ∣ 256 ^ (width - i) := dvd_pow_self 256 (by omega)
  rw [hpow, Nat.mod_mul_right_div_self, Nat.mod_mod_of_dvd _ hdvd]

theorem foldl_ofBytes (bytes : List UInt8) (acc : Nat) :
    bytes.foldl (fun acc b => acc * 256 + b.toNat) acc =
      acc * 256 ^ bytes.length + ofBytes bytes := by
  induction bytes generalizing acc with
  | nil => simp [ofBytes]
  | cons b rest ih =>
      rw [ofBytes, List.foldl_cons, List.foldl_cons, ih, ih (0 * 256 + b.toNat),
        List.length_cons, Nat.pow_succ]
      ring

theorem ofBytes_cons (b : UInt8) (rest : List UInt8) :
    ofBytes (b :: rest) = b.toNat * 256 ^ rest.length + ofBytes rest := by
  rw [ofBytes, List.foldl_cons, foldl_ofBytes, Nat.zero_mul, Nat.zero_add]

theorem ofBytes_lt (bytes : List UInt8) : ofBytes bytes < 256 ^ bytes.length := by
  induction bytes with
  | nil => exact Nat.one_pos
  | cons b rest ih =>
      have hb : b.toNat + 1 ≤ 256 := b.toNat_lt
      rw [ofBytes_cons, List.length_cons, Nat.pow_succ]
      calc b.toNat * 256 ^ rest.length + ofBytes rest
          < b.toNat * 256 ^ rest.length + 256 ^ rest.length := Nat.add_lt_add_left ih _
        _ = (b.toNat + 1) * 256 ^ rest.length := (Nat.succ_mul _ _).symm
        _ ≤ 256 * 256 ^ rest.length := Nat.mul_le_mul_right _ hb
        _ = 256 ^ rest.length * 256 := Nat.mul_comm _ _

/-- Bytes are those of their number. -/
theorem bytesOf_ofBytes (bytes : List UInt8) : bytesOf bytes.length (ofBytes bytes) = bytes := by
  induction bytes with
  | nil => rfl
  | cons b rest ih =>
      have hlt := ofBytes_lt rest
      have hpos : 0 < 256 ^ rest.length := Nat.pos_of_ne_zero (by simp)
      have hfirst : (b.toNat * 256 ^ rest.length + ofBytes rest) / 256 ^ rest.length = b.toNat := by
        rw [Nat.mul_comm, Nat.mul_add_div hpos, Nat.div_eq_of_lt hlt, Nat.add_zero]
      rw [ofBytes_cons, List.length_cons, bytesOf_succ, hfirst, Nat.mod_eq_of_lt b.toNat_lt,
        UInt8.ofNat_toNat, ← bytesOf_mod, Nat.mul_add_mod_self_right, Nat.mod_eq_of_lt hlt, ih]

namespace Id

def version : Id → KeySetVersion
  | .v1 _ => .version00
  | .v2 _ => .version01

/-- `IdBytes::to_vec`. -/
def idBytes : Id → List UInt8
  | .v1 bytes => bytesOf 7 bytes.toNat
  | .v2 bytes => bytesOf 32 bytes.toNat

theorem toBytes_eq (id : Id) : id.toBytes = id.version.toByte :: id.idBytes := by
  cases id <;> rfl

/-- The number of bytes that a version asks for. -/
def byteLength : KeySetVersion → Nat
  | .version00 => 7
  | .version01 => 32

@[simp] theorem length_idBytes (id : Id) : id.idBytes.length = byteLength id.version := by
  cases id <;> exact length_bytesOf _ _

/-- An identifier of the bytes behind its version, which `try_into` counts. -/
def ofIdBytes (error : Nut02Error) (version : KeySetVersion) (bytes : List UInt8) :
    Outcome Nut02Error Id :=
  match version with
  | .version00 =>
      if bytes.length = 7 then .ok (.v1 (BitVec.ofNat 56 (ofBytes bytes))) else .err error
  | .version01 =>
      if bytes.length = 32 then .ok (.v2 (BitVec.ofNat 256 (ofBytes bytes))) else .err error

theorem ofIdBytes_ne_panic {error : Nut02Error} {version : KeySetVersion} {bytes : List UInt8} :
    ofIdBytes error version bytes ≠ .panic := by
  cases version with
  | version00 =>
      unfold ofIdBytes
      split_ifs <;> nofun
  | version01 =>
      unfold ofIdBytes
      split_ifs <;> nofun

theorem ofIdBytes_idBytes (error : Nut02Error) (id : Id) :
    ofIdBytes error id.version id.idBytes = .ok id := by
  cases id with
  | v1 bytes =>
      have hvalue : BitVec.ofNat 56 (ofBytes (bytesOf 7 bytes.toNat)) = bytes := by
        rw [ofBytes_bytesOf]
        exact (congrArg _ (Nat.mod_eq_of_lt bytes.isLt)).trans (by simp)
      rw [version, idBytes, ofIdBytes, if_pos (length_bytesOf 7 _), hvalue]
  | v2 bytes =>
      have hvalue : BitVec.ofNat 256 (ofBytes (bytesOf 32 bytes.toNat)) = bytes := by
        rw [ofBytes_bytesOf]
        exact (congrArg _ (Nat.mod_eq_of_lt bytes.isLt)).trans (by simp)
      rw [version, idBytes, ofIdBytes, if_pos (length_bytesOf 32 _), hvalue]

/-- As many bytes as the version asks for are those of an identifier. -/
theorem exists_idBytes {version : KeySetVersion} {bytes : List UInt8}
    (h : bytes.length = byteLength version) :
    ∃ id : Id, id.version = version ∧ id.idBytes = bytes := by
  have hlt := ofBytes_lt bytes
  have hbytes := bytesOf_ofBytes bytes
  cases version with
  | version00 =>
      rw [byteLength] at h
      rw [h] at hlt hbytes
      refine ⟨.v1 (BitVec.ofNat 56 (ofBytes bytes)), rfl, ?_⟩
      rw [idBytes, BitVec.toNat_ofNat, Nat.mod_eq_of_lt (hlt.trans_eq (by decide)), hbytes]
  | version01 =>
      rw [byteLength] at h
      rw [h] at hlt hbytes
      refine ⟨.v2 (BitVec.ofNat 256 (ofBytes bytes)), rfl, ?_⟩
      rw [idBytes, BitVec.toNat_ofNat, Nat.mod_eq_of_lt (hlt.trans_eq (by decide)), hbytes]

theorem ofIdBytes_eq_ok {error : Nut02Error} {version : KeySetVersion} {bytes : List UInt8}
    {id : Id} :
    ofIdBytes error version bytes = .ok id ↔ id.version = version ∧ id.idBytes = bytes := by
  constructor
  · intro h
    have hlength : bytes.length = byteLength version := by
      cases version with
      | version00 =>
          simp only [ofIdBytes] at h
          split_ifs at h with hlength
          exact hlength
      | version01 =>
          simp only [ofIdBytes] at h
          split_ifs at h with hlength
          exact hlength
    obtain ⟨other, rfl, rfl⟩ := exists_idBytes hlength
    rw [ofIdBytes_idBytes] at h
    cases h
    exact ⟨rfl, rfl⟩
  · rintro ⟨rfl, rfl⟩
    exact ofIdBytes_idBytes error id

/-- `Id::from_bytes`, which takes the first byte before it counts them. -/
def fromBytes (bytes : List UInt8) : Outcome Nut02Error Id := do
  let byte ← Outcome.expect bytes[0]?
  let version ← KeySetVersion.fromByte byte
  ofIdBytes .slice version (bytes.drop 1)

theorem fromBytes_eq_ok {bytes : List UInt8} {id : Id} :
    fromBytes bytes = .ok id ↔ bytes = id.toBytes := by
  rw [toBytes_eq]
  cases bytes with
  | nil => exact ⟨nofun, nofun⟩
  | cons byte rest =>
      simp only [fromBytes, List.getElem?_cons_zero, Outcome.bind_eq_ok, Outcome.expect_eq_ok,
        Option.some.injEq, exists_eq_left', KeySetVersion.fromByte_eq_ok, ofIdBytes_eq_ok,
        List.drop_succ_cons, List.drop_zero, List.cons.injEq]
      constructor
      · rintro ⟨version, rfl, rfl, rfl⟩
        exact ⟨rfl, rfl⟩
      · rintro ⟨rfl, rfl⟩
        exact ⟨_, rfl, rfl, rfl⟩

theorem fromBytes_ne_panic {bytes : List UInt8} : fromBytes bytes ≠ .panic ↔ bytes ≠ [] := by
  cases bytes with
  | nil => simp [fromBytes, Outcome.expect]
  | cons byte rest =>
      simp [fromBytes, Outcome.expect, Outcome.bind_ne_panic, KeySetVersion.fromByte_ne_panic,
        ofIdBytes_ne_panic]

end Id

/-! ## Slices of texts -/

/-- `str::is_char_boundary`. -/
def isCharBoundary (s : String) (i : Nat) : Bool :=
  i == 0 ||
    match (utf8 s)[i]? with
    | some b => b < 128 || 192 ≤ b
    | none => i == (utf8 s).length

/-- `&s[..i]`. -/
def sliceTo (s : String) (i : Nat) : Outcome Nut02Error (List UInt8) :=
  if isCharBoundary s i then .ok ((utf8 s).take i) else .panic

/-- `&s[i..]`. -/
def sliceFrom (s : String) (i : Nat) : Outcome Nut02Error (List UInt8) :=
  if isCharBoundary s i then .ok ((utf8 s).drop i) else .panic

/-- The text spells the bytes as hexadecimal digits of either case. -/
def Spells (s : String) (bytes : List UInt8) : Prop :=
  (utf8 s).map asciiLowercase = hexEncodeBytes bytes

/-- Two texts are equal up to the case of ASCII letters. -/
def SameText (s t : String) : Prop :=
  (utf8 s).map asciiLowercase = (utf8 t).map asciiLowercase

/-- The version that the first two digits of a text spell. -/
def KeySetVersion.ofText (s : String) : Outcome Nut02Error KeySetVersion := do
  let start ← sliceTo s 2
  let decoded ← (hexDecodeSlice start).mapErr .hexError
  let byte ← Outcome.expect decoded[0]?
  KeySetVersion.fromByte byte

/-- The bytes that the other digits spell. -/
def bytesOfText (s : String) : Outcome Nut02Error (List UInt8) := do
  let rest ← sliceFrom s 2
  (hexDecodeSlice rest).mapErr .hexError

section Slices

variable {s : String} {version : KeySetVersion} {bytes : List UInt8}

theorem Spells.length (h : Spells s bytes) : (utf8 s).length = 2 * bytes.length := by
  have hlength := congrArg List.length h
  rwa [List.length_map, length_hexEncodeBytes] at hlength

theorem lt_of_mem_hexEncodeBytes {c : UInt8} (h : c ∈ hexEncodeBytes bytes) : c < 128 := by
  have hdigits : ∀ b : UInt8, hexDigitByte (b >>> 4) < 128 ∧ hexDigitByte (b &&& 15) < 128 :=
    forall_uint8 (by decide +kernel)
  obtain ⟨b, -, hc⟩ := List.mem_flatMap.mp h
  simp only [List.mem_cons, List.not_mem_nil, or_false] at hc
  rcases hc with rfl | rfl
  · exact (hdigits b).1
  · exact (hdigits b).2

/-- A text of digits has no character of several bytes. -/
theorem Spells.isCharBoundary (h : Spells s bytes) {i : Nat} (hi : i ≤ (utf8 s).length) :
    isCharBoundary s i = true := by
  have hascii : ∀ b : UInt8, asciiLowercase b < 128 → b < 128 := forall_uint8 (by decide +kernel)
  rw [Cdk.isCharBoundary, Bool.or_eq_true]
  right
  cases hget : (utf8 s)[i]? with
  | none =>
      rw [List.getElem?_eq_none_iff] at hget
      exact beq_iff_eq.mpr (Nat.le_antisymm hi hget)
  | some b =>
      have hmem : asciiLowercase b ∈ hexEncodeBytes bytes :=
        h ▸ List.mem_map_of_mem (List.mem_of_getElem? hget)
      simp [hascii b (lt_of_mem_hexEncodeBytes hmem)]

/-- A text is read as a version and bytes exactly if it spells them. -/
theorem exists_ofText_bytesOfText :
    (KeySetVersion.ofText s = .ok version ∧ bytesOfText s = .ok bytes) ↔
      Spells s (version.toByte :: bytes) := by
  have hsplit : hexEncodeBytes (version.toByte :: bytes) =
      hexEncodeBytes [version.toByte] ++ hexEncodeBytes bytes := rfl
  constructor
  · rintro ⟨hversion, hbytes⟩
    simp only [KeySetVersion.ofText, bytesOfText, sliceTo, sliceFrom, Outcome.bind_eq_ok,
      Outcome.mapErr_eq_ok, Outcome.expect_eq_ok, KeySetVersion.fromByte_eq_ok,
      hexDecodeSlice_eq_ok] at hversion hbytes
    obtain ⟨start, hstart, decoded, hdecoded, byte, hbyte, rfl⟩ := hversion
    obtain ⟨rest, hrest, hbytes⟩ := hbytes
    split_ifs at hstart hrest
    cases hstart
    cases hrest
    -- two digits give at most one byte
    have hlength := congrArg List.length hdecoded
    rw [List.length_map, length_hexEncodeBytes, List.length_take] at hlength
    obtain rfl : decoded = [version.toByte] := by
      cases decoded with
      | nil => cases hbyte
      | cons first more =>
          cases hbyte
          rw [List.length_cons] at hlength
          rw [List.eq_nil_of_length_eq_zero (l := more) (by omega)]
    rw [Spells, hsplit, ← hdecoded, ← hbytes, ← List.map_append, List.take_append_drop]
  · intro h
    have hlength := h.length
    rw [List.length_cons] at hlength
    have hboundary := h.isCharBoundary (i := 2) (by omega)
    have htwo : (hexEncodeBytes [version.toByte]).length = 2 := length_hexEncodeBytes
    have htake : ((utf8 s).take 2).map asciiLowercase = hexEncodeBytes [version.toByte] := by
      rw [List.map_take, h, hsplit, ← htwo, List.take_left]
    have hdrop : ((utf8 s).drop 2).map asciiLowercase = hexEncodeBytes bytes := by
      rw [List.map_drop, h, hsplit, ← htwo, List.drop_left]
    rw [← hexDecodeSlice_eq_ok] at htake hdrop
    constructor
    · simp [KeySetVersion.ofText, sliceTo, hboundary, htake, Outcome.mapErr, Outcome.expect,
        KeySetVersion.fromByte_eq_ok]
    · simp [bytesOfText, sliceFrom, hboundary, hdrop, Outcome.mapErr]

theorem ofText_ne_panic (hlength : 2 ≤ (utf8 s).length) :
    KeySetVersion.ofText s ≠ .panic ↔ isCharBoundary s 2 = true := by
  unfold KeySetVersion.ofText sliceTo
  cases isCharBoundary s 2 with
  | false => simp
  | true =>
      simp only [if_true, Outcome.bind_ok, Outcome.bind_ne_panic, Outcome.mapErr_ne_panic,
        Outcome.mapErr_eq_ok, Outcome.expect_ne_panic, hexDecodeSlice_eq_ok, iff_true]
      refine ⟨hexDecodeSlice_ne_panic, fun decoded hdecoded => ⟨?_, fun _ _ =>
        KeySetVersion.fromByte_ne_panic⟩⟩
      have hdigits := congrArg List.length hdecoded
      rw [List.length_map, length_hexEncodeBytes, List.length_take] at hdigits
      have hpos : 0 < decoded.length := by omega
      simp [hpos]

theorem bytesOfText_ne_panic (h : isCharBoundary s 2 = true) : bytesOfText s ≠ .panic := by
  simp [bytesOfText, sliceFrom, h, hexDecodeSlice_ne_panic]

end Slices

/-! ## Identifiers and short identifiers as text -/

namespace Id

/-- `Id::try_from` and `Id::from_str`. -/
def tryFrom (s : String) : Outcome Nut02Error Id := do
  Outcome.ensure ((utf8 s).length = 16 || (utf8 s).length = 66) .length
  let version ← KeySetVersion.ofText s
  let decoded ← bytesOfText s
  ofIdBytes .length version decoded

/-- A text is read as an identifier exactly if it spells its bytes. -/
theorem tryFrom_eq_ok {s : String} {id : Id} : tryFrom s = .ok id ↔ Spells s id.toBytes := by
  rw [toBytes_eq, ← exists_ofText_bytesOfText]
  simp only [tryFrom, Outcome.bind_eq_ok, Outcome.ensure_eq_ok, ofIdBytes_eq_ok]
  constructor
  · rintro ⟨_, -, version, hversion, decoded, hdecoded, rfl, rfl⟩
    exact ⟨hversion, hdecoded⟩
  · rintro ⟨hversion, hdecoded⟩
    refine ⟨(), ?_, _, hversion, _, hdecoded, rfl, rfl⟩
    have hlength := (exists_ofText_bytesOfText.mp ⟨hversion, hdecoded⟩).length
    rw [List.length_cons, length_idBytes] at hlength
    rw [hlength]
    cases id <;> rfl

theorem tryFrom_ne_panic {s : String} : tryFrom s ≠ .panic ↔
    ((utf8 s).length = 16 ∨ (utf8 s).length = 66 → isCharBoundary s 2 = true) := by
  unfold tryFrom
  by_cases hlength : (utf8 s).length = 16 ∨ (utf8 s).length = 66
  · have htwo : 2 ≤ (utf8 s).length := by omega
    rw [Outcome.bind_ne_panic, Outcome.bind_ne_panic, ofText_ne_panic htwo]
    constructor
    · rintro ⟨-, h⟩ -
      exact (h () (by simpa using hlength)).1
    · intro h
      refine ⟨Outcome.ensure_ne_panic _ _, fun _ _ => ⟨h hlength, fun _ _ => ?_⟩⟩
      rw [Outcome.bind_ne_panic]
      exact ⟨bytesOfText_ne_panic (h hlength), fun _ _ => ofIdBytes_ne_panic⟩
  · have hensure : Outcome.ensure ((utf8 s).length = 16 || (utf8 s).length = 66)
        Nut02Error.length = .err .length := by
      rw [Outcome.ensure, if_neg (by simpa using hlength)]
    rw [hensure, Outcome.bind_err]
    simp [hlength]

end Id

/-- A prefix of the bytes of an identifier, with its version. -/
structure ShortKeysetId where
  version : KeySetVersion
  prefixBytes : List UInt8
deriving DecidableEq, Repr

namespace ShortKeysetId

/-- `ShortKeysetId::to_bytes`. -/
def toBytes (short : ShortKeysetId) : List UInt8 := short.version.toByte :: short.prefixBytes

/-- `ShortKeysetId::from_bytes`, which takes any number of bytes. -/
def fromBytes (bytes : List UInt8) : Outcome Nut02Error ShortKeysetId := do
  let byte ← Outcome.expect bytes[0]?
  let version ← KeySetVersion.fromByte byte
  .ok ⟨version, bytes.drop 1⟩

/-- `ShortKeysetId::to_string`. -/
def toText (short : ShortKeysetId) : String :=
  short.version.toText ++ hexEncode short.prefixBytes

/-- `ShortKeysetId::try_from` and `ShortKeysetId::from_str`. -/
def tryFrom (s : String) : Outcome Nut02Error ShortKeysetId := do
  Outcome.ensure ((utf8 s).length = 16) .length
  let version ← KeySetVersion.ofText s
  let decoded ← bytesOfText s
  .ok ⟨version, decoded⟩

variable {bytes : List UInt8} {s : String} {short : ShortKeysetId}

theorem fromBytes_eq_ok : fromBytes bytes = .ok short ↔ bytes = short.toBytes := by
  obtain ⟨version, prefixBytes⟩ := short
  cases bytes with
  | nil => exact ⟨nofun, nofun⟩
  | cons byte rest =>
      simp only [fromBytes, toBytes, List.getElem?_cons_zero, Outcome.bind_eq_ok,
        Outcome.expect_eq_ok, Option.some.injEq, exists_eq_left', KeySetVersion.fromByte_eq_ok,
        List.drop_succ_cons, List.drop_zero, List.cons.injEq, Outcome.ok.injEq,
        ShortKeysetId.mk.injEq]
      constructor
      · rintro ⟨_, rfl, rfl, rfl⟩
        exact ⟨rfl, rfl⟩
      · rintro ⟨rfl, rfl⟩
        exact ⟨_, rfl, rfl, rfl⟩

theorem fromBytes_ne_panic : fromBytes bytes ≠ .panic ↔ bytes ≠ [] := by
  cases bytes with
  | nil => simp [fromBytes, Outcome.expect]
  | cons byte rest =>
      simp [fromBytes, Outcome.expect, Outcome.bind_ne_panic, KeySetVersion.fromByte_ne_panic]

theorem tryFrom_eq_ok : tryFrom s = .ok short ↔
    short.prefixBytes.length = 7 ∧ Spells s short.toBytes := by
  rw [toBytes, ← exists_ofText_bytesOfText]
  simp only [tryFrom, Outcome.bind_eq_ok, Outcome.ensure_eq_ok, decide_eq_true_eq,
    Outcome.ok.injEq]
  constructor
  · rintro ⟨_, hlength, version, hversion, decoded, hdecoded, rfl⟩
    have hspelled := (exists_ofText_bytesOfText.mp ⟨hversion, hdecoded⟩).length
    rw [List.length_cons] at hspelled
    refine ⟨?_, hversion, hdecoded⟩
    dsimp only
    omega
  · rintro ⟨hseven, hversion, hdecoded⟩
    have hspelled := (exists_ofText_bytesOfText.mp ⟨hversion, hdecoded⟩).length
    rw [List.length_cons, hseven] at hspelled
    exact ⟨(), hspelled, _, hversion, _, hdecoded, rfl⟩

theorem tryFrom_ne_panic : tryFrom s ≠ .panic ↔
    ((utf8 s).length = 16 → isCharBoundary s 2 = true) := by
  unfold tryFrom
  by_cases hlength : (utf8 s).length = 16
  · have htwo : 2 ≤ (utf8 s).length := by omega
    rw [Outcome.bind_ne_panic, Outcome.bind_ne_panic, ofText_ne_panic htwo]
    constructor
    · rintro ⟨-, h⟩ -
      exact (h () (by simpa using hlength)).1
    · intro h
      refine ⟨Outcome.ensure_ne_panic _ _, fun _ _ => ⟨h hlength, fun _ _ => ?_⟩⟩
      rw [Outcome.bind_ne_panic]
      exact ⟨bytesOfText_ne_panic (h hlength), fun _ _ => by simp⟩
  · have hensure : Outcome.ensure ((utf8 s).length = 16) Nut02Error.length = .err .length := by
      rw [Outcome.ensure, if_neg (by simpa using hlength)]
    rw [hensure, Outcome.bind_err]
    simp [hlength]

end ShortKeysetId

/-! ## Texts that are written -/

section Written

variable {bytes : List UInt8}

theorem utf8_append (a b : String) : utf8 (a ++ b) = utf8 a ++ utf8 b := by
  simp [utf8]

/-- A text of ASCII characters has one byte for each. -/
theorem utf8_ofList {cs : List Char} (h : ∀ c ∈ cs, c.toNat < 128) :
    utf8 (String.ofList cs) = cs.map fun c => UInt8.ofNat c.toNat := by
  rw [utf8, String.toUTF8_eq_toByteArray, String.toByteArray_ofList, List.utf8Encode,
    List.toList_data_toByteArray]
  induction cs with
  | nil => rfl
  | cons c rest ih =>
      obtain ⟨hc, hrest⟩ := List.forall_mem_cons.mp h
      have hsize : c.utf8Size = 1 := by
        rw [Char.utf8Size_eq_one_iff, UInt32.le_iff_toNat_le]
        exact Nat.le_of_lt_succ hc
      rw [List.flatMap_cons, ih hrest, String.utf8EncodeChar_eq_singleton hsize, List.map_cons]
      rfl

/-- Digits are written in lower case. -/
theorem map_asciiLowercase_hexEncodeBytes (bytes : List UInt8) :
    (hexEncodeBytes bytes).map asciiLowercase = hexEncodeBytes bytes := by
  have hdigits : ∀ b : UInt8, asciiLowercase (hexDigitByte (b >>> 4)) = hexDigitByte (b >>> 4) ∧
      asciiLowercase (hexDigitByte (b &&& 15)) = hexDigitByte (b &&& 15) :=
    forall_uint8 (by decide +kernel)
  unfold hexEncodeBytes
  rw [List.map_flatMap]
  congr 1
  funext b
  rw [List.map_cons, List.map_cons, (hdigits b).1, (hdigits b).2, List.map_nil]

theorem utf8_hexEncode (bytes : List UInt8) : utf8 (hexEncode bytes) = hexEncodeBytes bytes := by
  have hchar : ∀ b : UInt8, b < 128 → (Char.ofNat b.toNat).toNat = b.toNat :=
    forall_uint8 (by decide +kernel)
  have hmem : ∀ c ∈ (hexEncodeBytes bytes).map fun b => Char.ofNat b.toNat, c.toNat < 128 := by
    intro c hc
    obtain ⟨b, hb, rfl⟩ := List.mem_map.mp hc
    have hlt := lt_of_mem_hexEncodeBytes hb
    rw [hchar b hlt]
    exact UInt8.lt_iff_toNat_lt.mp hlt
  rw [hexEncode, utf8_ofList hmem, List.map_map]
  conv_rhs => rw [← List.map_id (hexEncodeBytes bytes)]
  apply List.map_congr_left
  intro b hb
  rw [Function.comp_apply, hchar b (lt_of_mem_hexEncodeBytes hb), UInt8.ofNat_toNat, id]

/-- The digits of a number are those of its bytes. -/
theorem utf8_hexDigits (width n : Nat) :
    utf8 (hexDigits (2 * width) n) = hexEncodeBytes (bytesOf width n) := by
  have hascii : ∀ d : Fin 16, (Nat.digitChar d).toNat < 128 ∧
      UInt8.ofNat (Nat.digitChar d).toNat = hexDigitByte (UInt8.ofNat d) := by decide +kernel
  have hmem : ∀ c ∈ (List.range (2 * width)).reverse.map fun i => Nat.digitChar (n / 16 ^ i % 16),
      c.toNat < 128 := by
    intro c hc
    obtain ⟨i, -, rfl⟩ := List.mem_map.mp hc
    exact (hascii ⟨n / 16 ^ i % 16, Nat.mod_lt _ (by decide)⟩).1
  rw [hexDigits, utf8_ofList hmem, List.map_map]
  clear hmem
  induction width with
  | zero => rfl
  | succ width ih =>
      have hdigit (i : Nat) : UInt8.ofNat (Nat.digitChar (n / 16 ^ i % 16)).toNat =
          hexDigitByte (UInt8.ofNat (n / 16 ^ i % 16)) :=
        (hascii ⟨n / 16 ^ i % 16, Nat.mod_lt _ (by decide)⟩).2
      have hpair : ∀ b : UInt8, b >>> 4 = UInt8.ofNat (b.toNat / 16 % 16) ∧
          b &&& 15 = UInt8.ofNat (b.toNat % 16) := forall_uint8 (by decide +kernel)
      have hbyte : (UInt8.ofNat (n / 256 ^ width % 256)).toNat = n / 256 ^ width % 256 := by
        rw [UInt8.toNat_ofNat']
        exact Nat.mod_mod_of_dvd _ (Nat.dvd_refl 256)
      have hpow : 256 ^ width = 16 ^ (2 * width) := by
        rw [Nat.pow_mul]
      have hhigh : n / 16 ^ (2 * width) % 256 / 16 % 16 = n / 16 ^ (2 * width + 1) % 16 := by
        rw [Nat.pow_succ, ← Nat.div_div_eq_div_mul]
        omega
      have hlow : n / 16 ^ (2 * width) % 256 % 16 = n / 16 ^ (2 * width) % 16 := by omega
      have hrange : (List.range (2 * (width + 1))).reverse =
          (2 * width + 1) :: 2 * width :: (List.range (2 * width)).reverse := by
        rw [Nat.mul_add, List.range_succ, List.range_succ]
        simp
      rw [hrange, List.map_cons, List.map_cons, ih, bytesOf_succ,
        hexEncodeBytes_cons, (hpair _).1, (hpair _).2, hbyte, hpow, hhigh, hlow]
      simp only [Function.comp_apply, hdigit]

theorem spells_of_utf8_eq {s : String} (h : utf8 s = hexEncodeBytes bytes) : Spells s bytes := by
  rw [Spells, h, map_asciiLowercase_hexEncodeBytes]

theorem Id.spells_toText (id : Id) : Spells id.toText id.toBytes := by
  apply spells_of_utf8_eq
  cases id with
  | v1 bytes =>
      rw [toText, utf8_append, utf8_hexDigits 7]
      rfl
  | v2 bytes =>
      rw [toText, utf8_append, utf8_hexDigits 32]
      rfl

theorem ShortKeysetId.spells_toText (short : ShortKeysetId) :
    Spells short.toText short.toBytes := by
  apply spells_of_utf8_eq
  have hversion : ∀ version : KeySetVersion,
      utf8 version.toText = hexEncodeBytes [version.toByte] := by
    intro version
    cases version <;> decide
  rw [toText, utf8_append, utf8_hexEncode, hversion]
  rfl

end Written

/-! ## What the codecs accept -/

/-- A decoder returns for an input, accepts it exactly if it is of the form, and reads no other
input as the same value. -/
structure CodecRight {α β : Type} (decode : α → Outcome Nut02Error β) (form : α → Prop)
    (same : α → α → Prop) (input : α) : Prop where
  returns : decode input ≠ .panic
  accepts : (∃ value, decode input = .ok value) ↔ form input
  once : ∀ other value, decode input = .ok value → decode other = .ok value → same input other

/-- A version byte and as many bytes as the version asks for. -/
def Id.BytesForm (bytes : List UInt8) : Prop :=
  (bytes.head? = some 0 ∧ bytes.length = 8) ∨ (bytes.head? = some 1 ∧ bytes.length = 33)

/-- A version byte and seven bytes. -/
def ShortKeysetId.BytesForm (bytes : List UInt8) : Prop :=
  (bytes.head? = some 0 ∨ bytes.head? = some 1) ∧ bytes.length = 8

/-- The digits of bytes of a form. -/
def TextForm (form : List UInt8 → Prop) (s : String) : Prop := ∃ bytes, form bytes ∧ Spells s bytes

theorem Id.exists_toBytes {bytes : List UInt8} :
    (∃ id : Id, id.toBytes = bytes) ↔ Id.BytesForm bytes := by
  constructor
  · rintro ⟨id, rfl⟩
    cases id with
    | v1 bits => exact .inl ⟨rfl, by simp [toBytes]⟩
    | v2 bits => exact .inr ⟨rfl, by simp [toBytes]⟩
  · intro h
    cases bytes with
    | nil => simp [BytesForm] at h
    | cons byte rest =>
        obtain ⟨version, hversion, hlength⟩ : ∃ version : KeySetVersion,
            byte = version.toByte ∧ rest.length = byteLength version := by
          simp only [BytesForm, List.head?_cons, Option.some.injEq, List.length_cons] at h
          rcases h with ⟨rfl, h⟩ | ⟨rfl, h⟩
          · exact ⟨.version00, rfl, Nat.succ_injective h⟩
          · exact ⟨.version01, rfl, Nat.succ_injective h⟩
        obtain ⟨id, rfl, rfl⟩ := exists_idBytes hlength
        exact ⟨id, by rw [toBytes_eq, hversion]⟩

theorem ShortKeysetId.exists_toBytes {bytes : List UInt8} :
    (∃ short : ShortKeysetId, short.toBytes = bytes) ↔
      bytes.head? = some 0 ∨ bytes.head? = some 1 := by
  constructor
  · rintro ⟨⟨version, prefixBytes⟩, rfl⟩
    cases version
    · exact .inl rfl
    · exact .inr rfl
  · intro h
    cases bytes with
    | nil => simp at h
    | cons byte rest =>
        rw [List.head?_cons, Option.some.injEq, Option.some.injEq] at h
        rcases h with rfl | rfl
        · exact ⟨⟨.version00, rest⟩, rfl⟩
        · exact ⟨⟨.version01, rest⟩, rfl⟩

/-- Texts that spell the same bytes are equal up to case. -/
theorem Spells.sameText {s t : String} {bytes : List UInt8} (hs : Spells s bytes)
    (ht : Spells t bytes) : SameText s t := hs.trans ht.symm

section Decoders

variable {bytes : List UInt8} {s : String}

theorem Id.codecRight_fromBytes :
    CodecRight Id.fromBytes Id.BytesForm Eq bytes ↔ bytes ≠ [] := by
  rw [← Id.fromBytes_ne_panic]
  refine ⟨CodecRight.returns, fun h => ⟨h, ?_, ?_⟩⟩
  · simp only [Id.fromBytes_eq_ok, ← Id.exists_toBytes, eq_comm]
  · intro other id hbytes hother
    rw [Id.fromBytes_eq_ok] at hbytes hother
    rw [hbytes, hother]

theorem Id.codecRight_tryFrom : CodecRight Id.tryFrom (TextForm Id.BytesForm) SameText s ↔
    ((utf8 s).length = 16 ∨ (utf8 s).length = 66 → isCharBoundary s 2 = true) := by
  rw [← Id.tryFrom_ne_panic]
  refine ⟨CodecRight.returns, fun h => ⟨h, ?_, ?_⟩⟩
  · simp only [Id.tryFrom_eq_ok, TextForm, ← Id.exists_toBytes]
    constructor
    · rintro ⟨id, hid⟩
      exact ⟨_, ⟨id, rfl⟩, hid⟩
    · rintro ⟨_, ⟨id, rfl⟩, hid⟩
      exact ⟨id, hid⟩
  · intro other id hs hother
    rw [Id.tryFrom_eq_ok] at hs hother
    exact hs.sameText hother

/-- Nothing is counted in the bytes of a short identifier. -/
theorem ShortKeysetId.codecRight_fromBytes :
    CodecRight ShortKeysetId.fromBytes ShortKeysetId.BytesForm Eq bytes ↔
      bytes ≠ [] ∧ (bytes.head? = some 0 ∨ bytes.head? = some 1 → bytes.length = 8) := by
  have haccepts : (∃ short, ShortKeysetId.fromBytes bytes = .ok short) ↔
      bytes.head? = some 0 ∨ bytes.head? = some 1 := by
    simp only [ShortKeysetId.fromBytes_eq_ok, ← ShortKeysetId.exists_toBytes, eq_comm]
  constructor
  · intro h
    refine ⟨ShortKeysetId.fromBytes_ne_panic.mp h.returns, fun hhead => ?_⟩
    exact (h.accepts.mp (haccepts.mpr hhead)).2
  · rintro ⟨hne, hlength⟩
    refine ⟨ShortKeysetId.fromBytes_ne_panic.mpr hne, ?_, ?_⟩
    · rw [haccepts, ShortKeysetId.BytesForm, iff_self_and]
      exact hlength
    · intro other short hbytes hother
      rw [ShortKeysetId.fromBytes_eq_ok] at hbytes hother
      rw [hbytes, hother]

theorem ShortKeysetId.codecRight_tryFrom :
    CodecRight ShortKeysetId.tryFrom (TextForm ShortKeysetId.BytesForm) SameText s ↔
      ((utf8 s).length = 16 → isCharBoundary s 2 = true) := by
  rw [← ShortKeysetId.tryFrom_ne_panic]
  refine ⟨CodecRight.returns, fun h => ⟨h, ?_, ?_⟩⟩
  · simp only [ShortKeysetId.tryFrom_eq_ok, TextForm, ShortKeysetId.BytesForm,
      ← ShortKeysetId.exists_toBytes]
    constructor
    · rintro ⟨short, hseven, hshort⟩
      exact ⟨_, ⟨⟨short, rfl⟩, congrArg Nat.succ hseven⟩, hshort⟩
    · rintro ⟨_, ⟨⟨short, rfl⟩, height⟩, hshort⟩
      exact ⟨short, Nat.succ_injective height, hshort⟩
  · intro other short hs hother
    rw [ShortKeysetId.tryFrom_eq_ok] at hs hother
    exact hs.2.sameText hother.2

end Decoders

/-- For all bytes and texts: when each decoder is right, and which identifiers are read back. -/
theorem idCodecs_right_iff (bytes : List UInt8) (s : String) (id : Id) (short : ShortKeysetId) :
    (CodecRight Id.fromBytes Id.BytesForm Eq bytes ↔ bytes ≠ []) ∧
    (CodecRight Id.tryFrom (TextForm Id.BytesForm) SameText s ↔
      ((utf8 s).length = 16 ∨ (utf8 s).length = 66 → isCharBoundary s 2 = true)) ∧
    (CodecRight ShortKeysetId.fromBytes ShortKeysetId.BytesForm Eq bytes ↔
      bytes ≠ [] ∧ (bytes.head? = some 0 ∨ bytes.head? = some 1 → bytes.length = 8)) ∧
    (CodecRight ShortKeysetId.tryFrom (TextForm ShortKeysetId.BytesForm) SameText s ↔
      ((utf8 s).length = 16 → isCharBoundary s 2 = true)) ∧
    (Id.fromBytes id.toBytes = .ok id ∧ Id.tryFrom id.toText = .ok id) ∧
    ShortKeysetId.fromBytes short.toBytes = .ok short ∧
      (ShortKeysetId.tryFrom short.toText = .ok short ↔ short.prefixBytes.length = 7) := by
  refine ⟨Id.codecRight_fromBytes, Id.codecRight_tryFrom, ShortKeysetId.codecRight_fromBytes,
    ShortKeysetId.codecRight_tryFrom, ⟨?_, ?_⟩, ?_, ?_⟩
  · exact Id.fromBytes_eq_ok.mpr rfl
  · exact Id.tryFrom_eq_ok.mpr id.spells_toText
  · exact ShortKeysetId.fromBytes_eq_ok.mpr rfl
  · rw [ShortKeysetId.tryFrom_eq_ok, and_iff_left short.spells_toText]

/-- Nothing is read as bytes of an identifier by taking its first byte, and a text of 16 bytes is
taken apart inside its first character. -/
theorem not_idCodecs_right :
    ¬ (∀ bytes, CodecRight Id.fromBytes Id.BytesForm Eq bytes) ∧
      ¬ ∀ s, CodecRight Id.tryFrom (TextForm Id.BytesForm) SameText s := by
  constructor
  · intro h
    exact (h []).returns rfl
  · intro h
    exact (h "€€€€€0").returns (by decide +kernel)

end Cdk
