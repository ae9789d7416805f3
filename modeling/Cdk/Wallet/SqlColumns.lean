import Cdk.Lib.Outcome
import Cdk.Wallet.ProofInfo
import Cdk.Wallet.Texts
import Mathlib.Data.Finset.Lattice.Lemmas

/-!
# Columns of the SQL wallet store

The values that a column can hold and the macros that read them as texts,
numbers or bytes. A number is written as a signed one; texts and bytes go
through parsers, some of which belong to other libraries.
-/

namespace Cdk

open Lib
open Std (ExtTreeMap)

/-! ## Columns -/

namespace SqlWallet

/-- The value of a column. -/
inductive Value where
  | null
  | integer (n : Int)
  | text (text : String)
  | blob (bytes : List UInt8)
deriving DecidableEq, Repr

/-- `Value::from` for an optional value. -/
def Value.ofOption {T : Type} (into : T → Value) : Option T → Value
  | some value => into value
  | none => .null

inductive ConversionError where
  | missingColumn (required found : Nat)
  | invalidType (expected column : String)
  | invalidConversion (column type : String)
  /-- The error of a function that reads the text or the bytes of a value. -/
  | invalidValue
deriving DecidableEq, Repr

inductive Error where
  | conversion (error : ConversionError)
  | nut01
  /-- A statement broke a constraint of its table. -/
  | database
deriving DecidableEq, Repr

variable {T : Type}

/-- `column_as_nullable_string!` of a column. -/
def columnAsNullableString (lossy : List UInt8 → String) (column : String) :
    Value → Outcome Error (Option String)
  | .text text => .ok (some text)
  | .blob bytes => .ok (some (lossy bytes))
  | .null => .ok none
  | .integer _ => .err (.conversion (.invalidType "String" column))

/-- `column_as_nullable_string!` of a column with functions that read the text or the bytes. What
they do not read is dropped. -/
def columnAsNullableParsed (fromStr : String → Option T) (fromSlice : List UInt8 → Option T)
    (column : String) : Value → Outcome Error (Option T)
  | .text text => .ok (fromStr text)
  | .blob bytes => .ok (fromSlice bytes)
  | .null => .ok none
  | .integer _ => .err (.conversion (.invalidType "String" column))

/-- `column_as_string!` of a column. -/
def columnAsString (lossy : List UInt8 → String) (column : String) : Value → Outcome Error String
  | .text text => .ok text
  | .blob bytes => .ok (lossy bytes)
  | _ => .err (.conversion (.invalidType "String" column))

/-- `column_as_string!` of a column with functions that read the text or the bytes. -/
def columnAsParsed (fromStr : String → Option T) (fromSlice : List UInt8 → Option T)
    (column : String) : Value → Outcome Error T
  | .text text => .ofOption (.conversion .invalidValue) (fromStr text)
  | .blob bytes => .ofOption (.conversion .invalidValue) (fromSlice bytes)
  | _ => .err (.conversion (.invalidType "String" column))

/-- `column_as_number!` of a column for a type of numbers. -/
def columnAsNumber (parse : String → Option T) (tryFrom : Int → Option T) (column : String) :
    Value → Outcome Error T
  | .text text => .ofOption (.conversion (.invalidConversion column "Number")) (parse text)
  | .integer n => .ofOption (.conversion (.invalidConversion column "Number")) (tryFrom n)
  | _ => .err (.conversion (.invalidType "Number" column))

/-- `column_as_nullable_number!` of a column for a type of numbers. -/
def columnAsNullableNumber (parse : String → Option T) (tryFrom : Int → Option T)
    (column : String) : Value → Outcome Error (Option T)
  | .null => .ok none
  | value => some <$> columnAsNumber parse tryFrom column value

/-- `column_as_nullable_binary!` of a column. -/
def columnAsNullableBinary (column : String) : Value → Outcome Error (Option (List UInt8))
  | .text text => .ok (some (utf8 text))
  | .blob bytes => .ok (some bytes)
  | .null => .ok none
  | .integer _ => .err (.conversion (.invalidType "String" column))

/-- `column_as_binary!` of a column. -/
def columnAsBinary (column : String) : Value → Outcome Error (List UInt8)
  | .text text => .ok (utf8 text)
  | .blob bytes => .ok bytes
  | _ => .err (.conversion (.invalidType "String" column))

/-! ## Numbers -/

/-- The cast `as i64` of a `u64`. -/
def asI64 (n : Nat) : Int := (BitVec.ofNat 64 n).toInt

/-- `u64::try_from` for an `i64`. -/
def u64TryFrom (n : Int) : Option Nat := if 0 ≤ n then some n.toNat else none

/-- `str::parse::<i64>`. -/
def parseI64 (s : String) : Option Int :=
  match s.toList with
  | '-' :: '+' :: _ => none
  | '-' :: digits => do
      let n ← parseU64 (String.ofList digits)
      if n ≤ 2 ^ 63 then some (-n) else none
  | _ => do
      let n ← parseU64 s
      if n < 2 ^ 63 then some n else none

/-- `Amount::from_i64`. -/
def amountFromI64 (n : Int) : Option Amount := (u64TryFrom n).bind Amount.ofNat?

/-- `column_as_number!` of a `u64`. -/
def columnAsU64 (column : String) : Value → Outcome Error Nat :=
  columnAsNumber parseU64 u64TryFrom column

/-- `column_as_number!` of a `u64`, as an amount. -/
def columnAsAmount (column : String) : Value → Outcome Error Amount :=
  columnAsNumber (fun text => (parseU64 text).bind Amount.ofNat?) amountFromI64 column

/-- The optional amount of a quote, which is read as an `i64`. -/
def nullableAmountColumn (value : Value) : Outcome Error (Option Amount) := do
  let n ← columnAsNullableNumber parseI64 some "amount" value
  .ok (n.bind amountFromI64)

theorem asI64_of_lt {n : Nat} (h : n < 2 ^ 63) : asI64 n = n := by
  simp only [asI64, BitVec.toInt, BitVec.toNat_ofNat]
  omega

theorem u64TryFrom_natCast (n : Nat) : u64TryFrom n = some n := by
  simp [u64TryFrom]

theorem amountFromI64_natCast (a : Amount) : amountFromI64 a.toNat = some a := by
  rw [amountFromI64, u64TryFrom_natCast, Option.bind_some]
  exact Amount.ofNat?_eq_some.mpr rfl

theorem columnAsU64_asI64 {n : Nat} (h : n < 2 ^ 63) (column : String) :
    columnAsU64 column (.integer (asI64 n)) = .ok n := by
  simp only [columnAsU64, columnAsNumber, asI64_of_lt h, u64TryFrom_natCast]
  rfl

theorem columnAsAmount_natCast (a : Amount) (column : String) :
    columnAsAmount column (.integer a.toNat) = .ok a := by
  simp only [columnAsAmount, columnAsNumber, amountFromI64_natCast]
  rfl

theorem columnAsAmount_toI64 {a : Amount} (h : a.toNat < 2 ^ 63) (column : String) :
    columnAsAmount column (.ofOption (fun n : Nat => .integer n) a.toI64) = .ok a := by
  rw [Amount.toI64, if_pos h]
  exact columnAsAmount_natCast a column

theorem nullableAmountColumn_toI64 {amount : Option Amount}
    (h : ∀ a ∈ amount, a.toNat < 2 ^ 63) :
    nullableAmountColumn (.ofOption (fun n : Nat => .integer n) (amount.bind Amount.toI64)) =
      .ok amount := by
  cases amount with
  | none => rfl
  | some a =>
      rw [Option.bind_some, Amount.toI64, if_pos (h a rfl)]
      exact congrArg Outcome.ok (amountFromI64_natCast a)

theorem columnAsAmount_asI64 {a : Amount} (h : a.toNat < 2 ^ 63) (column : String) :
    columnAsAmount column (.integer (asI64 a.toNat)) = .ok a := by
  rw [asI64_of_lt h, columnAsAmount_natCast]

/-! ## The libraries that fields go through -/

/-- `serde_json` for one type, whose values it can always write. -/
structure Json (T : Type) where
  toText : T → String
  fromStr : String → Option T
  fromSlice : List UInt8 → Option T

/-- The text of a value is read as the value. -/
def Json.RoundTrips (json : Json T) (value : T) : Prop :=
  json.fromStr (json.toText value) = some value

/-- What the rows of quotes, proofs and transactions go through outside the repository. -/
structure RowEnv where
  casing : Casing
  /-- `String::from_utf8_lossy`. -/
  fromUtf8Lossy : List UInt8 → String
  sha256 : List UInt8 → BitVec 256
  publicKeyFromStr : String → Option PublicKey
  publicKeyFromSlice : List UInt8 → Option PublicKey
  secretKeyFromStr : String → Option (BitVec 256)
  secretKeyFromSlice : List UInt8 → Option (BitVec 256)
  witness : Json Witness
  spendingConditions : Json SpendingConditions
  metadata : Json (ExtTreeMap String String)

namespace RowEnv

variable (env : RowEnv)

/-- `column_as_nullable_string!` with a function that reads the text. -/
def columnAsNullableWith (fromStr : String → Option T) :
    String → Value → Outcome Error (Option T) :=
  columnAsNullableParsed fromStr fun bytes => fromStr (env.fromUtf8Lossy bytes)

/-- `column_as_string!` with a function that reads the text. -/
def columnAsWith (fromStr : String → Option T) : String → Value → Outcome Error T :=
  columnAsParsed fromStr fun bytes => fromStr (env.fromUtf8Lossy bytes)

def mintUrlColumn : Value → Outcome Error String :=
  env.columnAsWith (MintUrl.formatUrl env.casing) "mint_url"

def unitColumn : Value → Outcome Error CurrencyUnit :=
  env.columnAsWith (fun text => some (CurrencyUnit.fromStr env.casing text)) "unit"

/-- The payment method, which is read from the text of its column. -/
def methodColumn (value : Value) : Outcome Error PaymentMethod := do
  let text ← columnAsString env.fromUtf8Lossy "row_method" value
  .ok (PaymentMethod.fromStr env.casing text)

def publicKeyColumn : String → Value → Outcome Error PublicKey :=
  columnAsParsed env.publicKeyFromStr env.publicKeyFromSlice

/-- The optional secret key, which is read from the text of its column. -/
def secretKeyColumn (value : Value) : Outcome Error (Option (BitVec 256)) := do
  match ← columnAsNullableString env.fromUtf8Lossy "secret_key" value with
  | some text => some <$> .ofOption .nut01 (env.secretKeyFromStr text)
  | none => .ok none

def nullableStringColumn : String → Value → Outcome Error (Option String) :=
  columnAsNullableString env.fromUtf8Lossy

def stringColumn : String → Value → Outcome Error String := columnAsString env.fromUtf8Lossy

/-- A mint URL as `MintUrl::from_str` makes them. -/
def NormalUrl (url : String) : Prop := MintUrl.formatUrl env.casing url = some url

/-- A key that the curve library reads from the bytes it writes. -/
def ReadsPublicKey (key : PublicKey) : Prop := env.publicKeyFromSlice key.toBytes = some key

def ReadsSecretKey (key : BitVec 256) : Prop :=
  env.secretKeyFromSlice (bytesOf 32 key.toNat) = some key

variable {env}

theorem mintUrlColumn_text {url : String} (h : env.NormalUrl url) :
    env.mintUrlColumn (.text url) = .ok url := by
  rw [NormalUrl] at h
  simp [mintUrlColumn, columnAsWith, columnAsParsed, h, Outcome.ofOption]

theorem unitColumn_text {unit : CurrencyUnit} (h : unit.Canonical env.casing) :
    env.unitColumn (.text (unit.toText env.casing)) = .ok unit := by
  rw [CurrencyUnit.Canonical] at h
  simp [unitColumn, columnAsWith, columnAsParsed, h, Outcome.ofOption]

theorem methodColumn_text {method : PaymentMethod} (h : method.Canonical env.casing) :
    env.methodColumn (.text method.toText) = .ok method := by
  rw [PaymentMethod.Canonical] at h
  simp [methodColumn, columnAsString, h]

theorem columnAsWith_text {fromStr : String → Option T} {text : String} {value : T}
    (h : fromStr text = some value) (column : String) :
    env.columnAsWith fromStr column (.text text) = .ok value := by
  simp [columnAsWith, columnAsParsed, h, Outcome.ofOption]

theorem secretKeyColumn_ofOption {key : Option (BitVec 256)}
    (h : ∀ k ∈ key, env.secretKeyFromStr (hexDigits 64 k.toNat) = some k) :
    env.secretKeyColumn (.ofOption (fun k => .text (hexDigits 64 k.toNat)) key) = .ok key := by
  cases key with
  | none => rfl
  | some k =>
      simp only [secretKeyColumn, Value.ofOption, columnAsNullableString, Outcome.bind_ok, h k rfl]
      rfl

theorem nullableStringColumn_ofOption (column : String) (value : Option String) :
    env.nullableStringColumn column (.ofOption .text value) = .ok value := by
  cases value <;> rfl

end RowEnv

/-- A value that is written as a text and read from it. -/
theorem columnAsNullableParsed_ofOption {fromStr : String → Option T}
    {fromSlice : List UInt8 → Option T} {toText : T → String} {value : Option T}
    (h : ∀ v ∈ value, fromStr (toText v) = some v) (column : String) :
    columnAsNullableParsed fromStr fromSlice column
      (.ofOption (fun v => .text (toText v)) value) = .ok value := by
  cases value with
  | none => rfl
  | some v => exact congrArg Outcome.ok (h v rfl)

end SqlWallet

end Cdk
