import Cdk.Nuts.KeysetId

/-!
# Texts of the values that a wallet stores

A mint URL, a unit, a payment method and a state are stored as the text that
`to_string` writes and `from_str` reads. The states are read back; of a unit
and of a payment method with a name of their own the letter case is lost.
-/

namespace Cdk

/-! ## Mint URLs -/

namespace MintUrl

/-- `str::trim_end_matches` for one character. -/
def trimEnd (c : Char) (text : String) : String :=
  String.ofList (text.toList.reverse.dropWhile (· == c)).reverse

/-- The parts of a text between the occurrences of a separator, after `skip` characters and with the
first part begun. -/
def splitFrom (separator : List Char) : Nat → List Char → List Char → List (List Char)
  | _, part, [] => [part.reverse]
  | skip + 1, part, _ :: rest => splitFrom separator skip part rest
  | 0, part, c :: rest =>
      if separator.isPrefixOf (c :: rest) then
        part.reverse :: splitFrom separator (separator.length - 1) [] rest
      else splitFrom separator 0 (c :: part) rest

/-- `str::split` by a text. -/
def split (separator text : String) : List String :=
  (splitFrom separator.toList 0 [] text.toList).map String.ofList

/-- `MintUrl::format_url`: protocol and host in lower case, and the path. What follows a second
`://` is lost. -/
def formatUrl (casing : Casing) (url : String) : Option String := do
  if url.isEmpty then none
  else
    let parts := split "://" (trimEnd '/' url)
    let protocol ← parts[0]?
    let rest ← parts[1]?
    let host ← (split "/" rest)[0]?
    let path := "/".intercalate ((split "/" rest).drop 1)
    let formattedUrl := casing.lowercase protocol ++ "://" ++ casing.lowercase host
    some (if path.isEmpty then formattedUrl else formattedUrl ++ "/" ++ path)

end MintUrl

/-! ## Units and payment methods -/

/-- `CurrencyUnit::from_str`. -/
def CurrencyUnit.fromStr (casing : Casing) (value : String) : CurrencyUnit :=
  match casing.uppercase value with
  | "SAT" => .sat
  | "MSAT" => .msat
  | "USD" => .usd
  | "EUR" => .eur
  | "AUTH" => .auth
  | _ => .custom value

/-- `PaymentMethod::to_string`, which keeps the letter case of a name. -/
def PaymentMethod.toText : PaymentMethod → String
  | .bolt11 => "bolt11"
  | .bolt12 => "bolt12"
  | .custom name => name

/-- `PaymentMethod::from_str`. -/
def PaymentMethod.fromStr (casing : Casing) (value : String) : PaymentMethod :=
  match casing.lowercase value with
  | "bolt11" => .bolt11
  | "bolt12" => .bolt12
  | name => .custom name

/-- A unit whose text is read as the unit again. -/
def CurrencyUnit.Canonical (casing : Casing) (unit : CurrencyUnit) : Prop :=
  CurrencyUnit.fromStr casing (unit.toText casing) = unit

/-- A payment method whose text is read as the method again. -/
def PaymentMethod.Canonical (casing : Casing) (method : PaymentMethod) : Prop :=
  PaymentMethod.fromStr casing method.toText = method

/-! ## States and directions -/

/-- `State::to_string`. -/
def State.toText : State → String
  | .spent => "SPENT"
  | .unspent => "UNSPENT"
  | .pending => "PENDING"
  | .reserved => "RESERVED"
  | .pendingSpent => "PENDING_SPENT"

/-- `State::from_str`. -/
def State.fromStr : String → Option State
  | "SPENT" => some .spent
  | "UNSPENT" => some .unspent
  | "PENDING" => some .pending
  | "RESERVED" => some .reserved
  | "PENDING_SPENT" => some .pendingSpent
  | _ => none

@[simp] theorem State.fromStr_toText (state : State) : State.fromStr state.toText = some state := by
  cases state <;> rfl

theorem State.toText_injective : Function.Injective State.toText := by
  intro a b h
  have hread := congrArg State.fromStr h
  rw [State.fromStr_toText, State.fromStr_toText] at hread
  exact Option.some.inj hread

/-- `MintQuoteState::to_string`. -/
def MintQuoteState.toText : MintQuoteState → String
  | .unpaid => "UNPAID"
  | .paid => "PAID"
  | .issued => "ISSUED"

/-- `MintQuoteState::from_str`. -/
def MintQuoteState.fromStr : String → Option MintQuoteState
  | "PAID" => some .paid
  | "UNPAID" => some .unpaid
  | "ISSUED" => some .issued
  | _ => none

@[simp] theorem MintQuoteState.fromStr_toText (state : MintQuoteState) :
    MintQuoteState.fromStr state.toText = some state := by
  cases state <;> rfl

/-- `MeltQuoteState::to_string`. -/
def MeltQuoteState.toText : MeltQuoteState → String
  | .unpaid => "UNPAID"
  | .paid => "PAID"
  | .pending => "PENDING"
  | .unknown => "UNKNOWN"
  | .failed => "FAILED"

/-- `MeltQuoteState::from_str`. -/
def MeltQuoteState.fromStr : String → Option MeltQuoteState
  | "PENDING" => some .pending
  | "PAID" => some .paid
  | "UNPAID" => some .unpaid
  | "UNKNOWN" => some .unknown
  | "FAILED" => some .failed
  | _ => none

@[simp] theorem MeltQuoteState.fromStr_toText (state : MeltQuoteState) :
    MeltQuoteState.fromStr state.toText = some state := by
  cases state <;> rfl

/-- Whether a transaction brings in or sends away. -/
inductive TransactionDirection where
  | incoming
  | outgoing
deriving DecidableEq, Repr

/-- `TransactionDirection::to_string`. -/
def TransactionDirection.toText : TransactionDirection → String
  | .incoming => "Incoming"
  | .outgoing => "Outgoing"

/-- `TransactionDirection::from_str`. -/
def TransactionDirection.fromStr : String → Option TransactionDirection
  | "Incoming" => some .incoming
  | "Outgoing" => some .outgoing
  | _ => none

@[simp] theorem TransactionDirection.fromStr_toText (direction : TransactionDirection) :
    TransactionDirection.fromStr direction.toText = some direction := by
  cases direction <;> rfl

end Cdk
