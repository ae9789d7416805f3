import Cdk.Lib.OrderedMap
import Cdk.Mint.Signatory
import Cdk.Nuts.IdCodecs

/-!
# A signatory in another process

The keys of a mint can be in another process. Outputs, proofs, signatures with
their DLEQ proofs and keysets travel as messages, and an error as a number and a
text. Only five numbers are written, and these are the ones that are read: the
reader panics on all others. Witnesses do not travel, and a proof without a valid
signature is no error there but an answer.
-/

namespace Cdk

open Lib

/-! ## Messages -/

/-- `PublicKey::from_slice`, which reads the bytes of every point. -/
structure PointCodec where
  fromSlice : List UInt8 → Option PublicKey
  fromSlice_toBytes : ∀ key, fromSlice key.toBytes = some key

/-- Compressed points, wherever they are. -/
def PointCodec.compressed : PointCodec where
  fromSlice bytes := match bytes with
    | [] => none
    | parity :: rest =>
        if rest.length = 32 ∧ (parity = 2 ∨ parity = 3) then
          some ⟨parity = 3, BitVec.ofNat 256 (ofBytes rest)⟩
        else none
  fromSlice_toBytes := by
    rintro ⟨odd, x⟩
    have hvalue : ofBytes (bytesOf 32 x.toNat) = x.toNat := by
      rw [ofBytes_bytesOf]
      exact Nat.mod_eq_of_lt (lt_of_lt_of_eq x.isLt (by norm_num))
    have hbytes : PublicKey.toBytes ⟨odd, x⟩ = (if odd then 3 else 2) :: bytesOf 32 x.toNat := rfl
    rw [hbytes]
    cases odd <;> simp [length_bytesOf, hvalue]

/-- The order of the group of points. -/
def groupOrder : Nat := 0xFFFFFFFFFFFFFFFFFFFFFFFFFFFFFFFEBAAEDCE6AF48A03BBFD25E8CD0364141

/-- A `SecretKey` as the library has it, a number between zero and the order of the group. -/
structure CurveSecretKey where
  value : Nat
  value_pos : 0 < value
  value_lt : value < groupOrder
deriving DecidableEq

namespace CurveSecretKey

/-- `SecretKey::as_secret_bytes`. -/
def toBytes (key : CurveSecretKey) : List UInt8 := bytesOf 32 key.value

/-- `SecretKey::from_slice`. -/
def fromSlice (bytes : List UInt8) : Option CurveSecretKey :=
  if h : bytes.length = 32 ∧ 0 < ofBytes bytes ∧ ofBytes bytes < groupOrder then
    some ⟨ofBytes bytes, h.2.1, h.2.2⟩
  else none

theorem fromSlice_toBytes (key : CurveSecretKey) : fromSlice key.toBytes = some key := by
  obtain ⟨value, hpos, hlt⟩ := key
  have hvalue : ofBytes (bytesOf 32 value) = value := by
    rw [ofBytes_bytesOf]
    exact Nat.mod_eq_of_lt (hlt.trans (by decide))
  simp [fromSlice, toBytes, hvalue, hpos, hlt]

end CurveSecretKey

/-- The DLEQ proof of a signature. -/
structure SignatureDleq where
  e : CurveSecretKey
  s : CurveSecretKey
deriving DecidableEq

/-- A `BlindSignature` with the DLEQ proof that the signatory has made for it. -/
structure ProvenSignature extends BlindSignature where
  dleq : Option SignatureDleq

/-- What a client of the signatory returns besides what it is answered. -/
inductive ClientError where
  | cdk (error : Error)
  | custom (detail : String)
  | nut01
  | nut02 (error : Nut02Error)
deriving DecidableEq, Repr

/-- The text of a secret, or of its digits where the bytes are no text. -/
def secretText (bytes : List UInt8) : String :=
  match String.fromUTF8? ⟨bytes.toArray⟩ with
  | some text => text
  | none => hexEncode bytes

theorem secretText_utf8 (text : String) : secretText (utf8 text) = text := by
  have hbytes : (⟨(utf8 text).toArray⟩ : ByteArray) = text.toByteArray := by
    simp [utf8]
  rw [secretText, hbytes, String.fromUTF8?, dif_pos text.isValidUTF8]
  rfl

namespace SignatoryProto

structure BlindedMessage where
  amount : Amount
  keysetId : List UInt8
  blindedSecret : List UInt8

structure BlindSignatureDleq where
  e : List UInt8
  s : List UInt8

structure BlindSignature where
  amount : Amount
  blindedSecret : List UInt8
  keysetId : List UInt8
  dleq : Option BlindSignatureDleq

structure Proof where
  amount : Amount
  keysetId : List UInt8
  secret : List UInt8
  c : List UInt8

inductive ErrorCode where
  | unspecified
  | amountOutsideLimit
  | duplicateInputsProvided
  | duplicateOutputsProvided
  | keysetNotKnown
  | keysetInactive
  | mintingDisabled
  | couldNotRotateKeyset
  | invalidProof
  | invalidBlindMessage
  | unitNotSupported
deriving DecidableEq, Repr

namespace ErrorCode

def toNumber : ErrorCode → Int
  | .unspecified => 0
  | .amountOutsideLimit => 1
  | .duplicateInputsProvided => 2
  | .duplicateOutputsProvided => 3
  | .keysetNotKnown => 4
  | .keysetInactive => 5
  | .mintingDisabled => 6
  | .couldNotRotateKeyset => 7
  | .invalidProof => 8
  | .invalidBlindMessage => 9
  | .unitNotSupported => 10

def ofNumber : Int → Option ErrorCode
  | 0 => some .unspecified
  | 1 => some .amountOutsideLimit
  | 2 => some .duplicateInputsProvided
  | 3 => some .duplicateOutputsProvided
  | 4 => some .keysetNotKnown
  | 5 => some .keysetInactive
  | 6 => some .mintingDisabled
  | 7 => some .couldNotRotateKeyset
  | 8 => some .invalidProof
  | 9 => some .invalidBlindMessage
  | 10 => some .unitNotSupported
  | _ => none

@[simp] theorem ofNumber_toNumber (code : ErrorCode) : ofNumber code.toNumber = some code := by
  cases code <;> rfl

end ErrorCode

structure Error where
  code : Int
  detail : String

/-- `From<cdk_common::Error> for Error`; the first two are the errors of amounts. -/
def errorCode : Cdk.Error → ErrorCode
  | .amountOverflow => .amountOutsideLimit
  | .cannotConvertUnits => .amountOutsideLimit
  | .duplicateInputs => .duplicateInputsProvided
  | .duplicateOutputs => .duplicateInputsProvided
  | .unknownKeySet => .keysetNotKnown
  | .inactiveKeyset => .keysetInactive
  | _ => .unspecified

/-- `From<Error> for cdk_common::Error`, with a `todo!` for the other numbers. -/
def Error.toCdk {α : Type} (error : Error) : Outcome ClientError α :=
  match ErrorCode.ofNumber error.code with
  | none => .panic
  | some .amountOutsideLimit => .err (.cdk .amountOverflow)
  | some .duplicateInputsProvided => .err (.cdk .duplicateInputs)
  | some .keysetNotKnown => .err (.cdk .unknownKeySet)
  | some .keysetInactive => .err (.cdk .inactiveKeyset)
  | some .unspecified => .err (.custom error.detail)
  | some _ => .panic

section Codecs

variable (points : PointCodec)

def BlindedMessage.ofCdk (message : Cdk.BlindedMessage) : BlindedMessage :=
  ⟨message.amount, message.keysetId.toBytes, message.blindedSecret.toBytes⟩

/-- `TryInto<cdk_common::BlindedMessage>`. -/
def BlindedMessage.toCdk (message : BlindedMessage) : Outcome ClientError Cdk.BlindedMessage := do
  let keysetId ← (Id.fromBytes message.keysetId).mapErr .nut02
  let blindedSecret ← Outcome.ofOption .nut01 (points.fromSlice message.blindedSecret)
  .ok ⟨message.amount, keysetId, blindedSecret⟩

def BlindSignatureDleq.ofCdk (dleq : SignatureDleq) : BlindSignatureDleq :=
  ⟨dleq.e.toBytes, dleq.s.toBytes⟩

/-- `TryInto<cdk_common::BlindSignatureDleq>`. -/
def BlindSignatureDleq.toCdk (dleq : BlindSignatureDleq) : Outcome ClientError SignatureDleq := do
  let e ← Outcome.ofOption .nut01 (CurveSecretKey.fromSlice dleq.e)
  let s ← Outcome.ofOption .nut01 (CurveSecretKey.fromSlice dleq.s)
  .ok ⟨e, s⟩

def BlindSignature.ofCdk (signature : ProvenSignature) : BlindSignature :=
  ⟨signature.amount, signature.c.toBytes, signature.keysetId.toBytes,
    signature.dleq.map BlindSignatureDleq.ofCdk⟩

/-- `TryInto<cdk_common::BlindSignature>`. -/
def BlindSignature.toCdk (signature : BlindSignature) : Outcome ClientError ProvenSignature := do
  let c ← Outcome.ofOption .nut01 (points.fromSlice signature.blindedSecret)
  let keysetId ← (Id.fromBytes signature.keysetId).mapErr .nut02
  let dleq ← match signature.dleq with
    | none => .ok none
    | some dleq => do
        let dleq ← dleq.toCdk
        .ok (some dleq)
  .ok ⟨⟨signature.amount, keysetId, c⟩, dleq⟩

def Proof.ofCdk (proof : Cdk.Proof) : Proof :=
  ⟨proof.amount, proof.keysetId.toBytes, utf8 proof.secret, proof.c.toBytes⟩

/-- `TryInto<cdk_common::Proof>`: the witness does not travel. -/
def Proof.toCdk (proof : Proof) : Outcome ClientError Cdk.Proof := do
  let keysetId ← (Id.fromBytes proof.keysetId).mapErr .nut02
  let c ← Outcome.ofOption .nut01 (points.fromSlice proof.c)
  .ok ⟨proof.amount, keysetId, secretText proof.secret, c, none⟩

theorem fromBytes_toBytes (id : Id) : Id.fromBytes id.toBytes = .ok id := Id.fromBytes_eq_ok.mpr rfl

variable {points}

theorem BlindedMessage.toCdk_ofCdk (message : Cdk.BlindedMessage) :
    (BlindedMessage.ofCdk message).toCdk points = .ok message := by
  simp [toCdk, ofCdk, fromBytes_toBytes, points.fromSlice_toBytes, Outcome.mapErr, Outcome.ofOption]

theorem BlindSignatureDleq.toCdk_ofCdk (dleq : SignatureDleq) :
    (BlindSignatureDleq.ofCdk dleq).toCdk = .ok dleq := by
  simp [toCdk, ofCdk, CurveSecretKey.fromSlice_toBytes, Outcome.ofOption]

theorem BlindSignature.toCdk_ofCdk (signature : ProvenSignature) :
    (BlindSignature.ofCdk signature).toCdk points = .ok signature := by
  obtain ⟨⟨amount, keysetId, c⟩, _ | dleq⟩ := signature
  · simp [toCdk, ofCdk, fromBytes_toBytes, points.fromSlice_toBytes, Outcome.mapErr,
      Outcome.ofOption]
  · simp [toCdk, ofCdk, fromBytes_toBytes, points.fromSlice_toBytes, Outcome.mapErr,
      Outcome.ofOption, BlindSignatureDleq.toCdk_ofCdk]

theorem Proof.toCdk_ofCdk (proof : Cdk.Proof) :
    (Proof.ofCdk proof).toCdk points = .ok { proof with witness := none } := by
  simp [toCdk, ofCdk, fromBytes_toBytes, points.fromSlice_toBytes, secretText_utf8, Outcome.mapErr,
    Outcome.ofOption]

end Codecs

/-! ### Keysets -/

inductive CurrencyUnitType where
  | unspecified
  | sat
  | msat
  | usd
  | eur
  | auth
deriving DecidableEq, Repr

namespace CurrencyUnitType

def toNumber : CurrencyUnitType → Int
  | .unspecified => 0
  | .sat => 1
  | .msat => 2
  | .usd => 3
  | .eur => 4
  | .auth => 5

def ofNumber : Int → Option CurrencyUnitType
  | 0 => some .unspecified
  | 1 => some .sat
  | 2 => some .msat
  | 3 => some .usd
  | 4 => some .eur
  | 5 => some .auth
  | _ => none

end CurrencyUnitType

inductive CurrencyUnitValue where
  | unit (number : Int)
  | customUnit (name : String)

structure CurrencyUnit where
  currencyUnit : Option CurrencyUnitValue

def CurrencyUnit.ofCdk : Cdk.CurrencyUnit → CurrencyUnit
  | .sat => ⟨some (.unit CurrencyUnitType.sat.toNumber)⟩
  | .msat => ⟨some (.unit CurrencyUnitType.msat.toNumber)⟩
  | .usd => ⟨some (.unit CurrencyUnitType.usd.toNumber)⟩
  | .eur => ⟨some (.unit CurrencyUnitType.eur.toNumber)⟩
  | .auth => ⟨some (.unit CurrencyUnitType.auth.toNumber)⟩
  | .custom name => ⟨some (.customUnit name)⟩

/-- `TryInto<cdk_common::CurrencyUnit>`. -/
def CurrencyUnit.toCdk (unit : CurrencyUnit) : Option Cdk.CurrencyUnit :=
  match unit.currencyUnit with
  | none => none
  | some (.customUnit name) => some (.custom name)
  | some (.unit number) =>
      match CurrencyUnitType.ofNumber number with
      | some .sat => some .sat
      | some .msat => some .msat
      | some .usd => some .usd
      | some .eur => some .eur
      | some .auth => some .auth
      | some .unspecified => none
      | none => none

theorem CurrencyUnit.toCdk_ofCdk (unit : Cdk.CurrencyUnit) : (ofCdk unit).toCdk = some unit := by
  cases unit <;> rfl

structure KeySet where
  id : List UInt8
  unit : Option CurrencyUnit
  active : Bool
  inputFeePpk : Nat
  keys : Option (List (Nat × List UInt8))
  finalExpiry : Option Nat

structure RotationRequest where
  unit : Option CurrencyUnit
  inputFeePpk : Nat
  amounts : List Nat

end SignatoryProto

/-! ## The service -/

structure SignatoryKeySet where
  id : Id
  unit : CurrencyUnit
  active : Bool
  keys : OrderedMap Nat PublicKey
  amounts : List Nat
  inputFeePpk : Nat
  finalExpiry : Option Nat

structure SignatoryKeysets where
  pubkey : PublicKey
  keysets : List SignatoryKeySet

structure RotateKeyArguments where
  unit : CurrencyUnit
  amounts : List Nat
  inputFeePpk : Nat

/-- The trait `Signatory`. -/
structure SignatoryService where
  blindSign : List BlindedMessage → Outcome Error (List ProvenSignature)
  verifyProofs : List Proof → Outcome Error Unit
  keysets : Outcome Error SignatoryKeysets
  rotateKeyset : RotateKeyArguments → Outcome Error SignatoryKeySet

/-- What a message depends on besides its fields: the order of a hash map, the texts of errors, and
the text of a call that is not answered. -/
structure SignatoryLink where
  points : PointCodec
  order : List (Nat × PublicKey) → List (Nat × PublicKey)
  order_perm : ∀ entries, (order entries).Perm entries
  describe : Error → String
  failed : String

/-- The amounts of the keys, in ascending order. -/
def SignatoryKeySet.ofKeys (keyset : SignatoryKeySet) : SignatoryKeySet :=
  { keyset with amounts := keyset.keys.entries.map Prod.fst }

def SignatoryKeysets.ofKeys (keysets : SignatoryKeysets) : SignatoryKeysets :=
  { keysets with keysets := keysets.keysets.map SignatoryKeySet.ofKeys }

/-- A response carries an error or a value. -/
structure SignatoryResponse (α : Type) where
  error : Option SignatoryProto.Error
  value : Option α

namespace SignatoryLink

open SignatoryProto (errorCode)

variable (link : SignatoryLink)

/-! ### Keysets as messages -/

def keySetMessage (keyset : SignatoryKeySet) : SignatoryProto.KeySet where
  id := keyset.id.toBytes
  unit := some (.ofCdk keyset.unit)
  active := keyset.active
  inputFeePpk := keyset.inputFeePpk
  keys := some ((link.order keyset.keys.entries).map fun e => (e.1, e.2.toBytes))
  finalExpiry := keyset.finalExpiry

/-- The key of an entry. -/
def readKey (entry : Nat × List UInt8) : Outcome ClientError (Nat × PublicKey) := do
  let key ← Outcome.ofOption .nut01 (link.points.fromSlice entry.2)
  .ok (entry.1, key)

/-- `TryInto<SignatoryKeySet>`. -/
def readKeySet (message : SignatoryProto.KeySet) : Outcome ClientError SignatoryKeySet := do
  let entries ← Outcome.ofOption (.custom "Missing property") message.keys
  let keys ← entries.mapM link.readKey
  let id ← (Id.fromBytes message.id).mapErr .nut02
  let unit ← Outcome.ofOption (.custom "Missing property") message.unit
  let unit ← Outcome.ofOption (.custom "Invalid currency unit") unit.toCdk
  .ok ⟨id, unit, message.active, OrderedMap.ofList keys,
    (OrderedMap.ofList keys).entries.map Prod.fst, message.inputFeePpk, message.finalExpiry⟩

/-! ### Answers -/

/-- `From<cdk_common::Error> for Error`. -/
def errorMessage (error : Error) : SignatoryProto.Error :=
  ⟨(errorCode error).toNumber, link.describe error⟩

/-- A call of the server: a request that cannot be read has no answer. -/
def serve {α β : Type} (toMessage : α → β) (answer : Outcome Error α) :
    Outcome ClientError (SignatoryResponse β) :=
  match answer with
  | .ok a => .ok ⟨none, some (toMessage a)⟩
  | .err e => .ok ⟨some (link.errorMessage e), none⟩
  | .panic => .panic

/-- What the client gets of a call. -/
def await {α : Type} (response : Outcome ClientError α) : Outcome ClientError α :=
  match response with
  | .ok a => .ok a
  | _ => .err (.custom link.failed)

/-- `handle_error!`. -/
def handleError {α : Type} (response : SignatoryResponse α) : Outcome ClientError α :=
  match response.error with
  | some error => error.toCdk
  | none => .ofOption (.custom "Internal error") response.value

/-! ### Calls -/

section Calls

variable (service : SignatoryService)

def blindSign (messages : List BlindedMessage) : Outcome ClientError (List ProvenSignature) := do
  let response ← link.await do
    let messages ← (messages.map SignatoryProto.BlindedMessage.ofCdk).mapM fun m =>
      m.toCdk link.points
    link.serve (List.map SignatoryProto.BlindSignature.ofCdk) (service.blindSign messages)
  let signatures ← handleError response
  signatures.mapM fun s => s.toCdk link.points

/-- An invalid signature is answered, as no success. -/
def verifyProofs (proofs : List Proof) : Outcome ClientError Unit := do
  let response ← link.await do
    let proofs ← (proofs.map SignatoryProto.Proof.ofCdk).mapM fun p => p.toCdk link.points
    match service.verifyProofs proofs with
    | .err .dhke => .ok ⟨none, some false⟩
    | answer => link.serve (fun _ => true) answer
  let success ← handleError response
  .ensure success (.cdk .signatureMissingOrInvalid)

def keysets : Outcome ClientError SignatoryKeysets := do
  let response ← link.await
    (link.serve (fun keysets : SignatoryKeysets =>
      (keysets.pubkey.toBytes, keysets.keysets.map link.keySetMessage)) service.keysets)
  let message ← handleError response
  let pubkey ← Outcome.ofOption .nut01 (link.points.fromSlice message.1)
  let keysets ← message.2.mapM link.readKeySet
  .ok ⟨pubkey, keysets⟩

def rotateKeyset (arguments : RotateKeyArguments) : Outcome ClientError SignatoryKeySet := do
  let request : SignatoryProto.RotationRequest :=
    ⟨some (.ofCdk arguments.unit), arguments.inputFeePpk, arguments.amounts⟩
  let response ← link.await do
    let unit ← Outcome.ofOption (.custom "unit not set") request.unit
    let unit ← Outcome.ofOption (.custom "Invalid currency unit") unit.toCdk
    link.serve link.keySetMessage
      (service.rotateKeyset ⟨unit, request.amounts, request.inputFeePpk⟩)
  let message ← handleError response
  link.readKeySet message

end Calls

/-! ### What arrives -/

/-- The error that the client has instead of one of the signatory. -/
def relayedError : Error → ClientError
  | .amountOverflow => .cdk .amountOverflow
  | .cannotConvertUnits => .cdk .amountOverflow
  | .duplicateInputs => .cdk .duplicateInputs
  | .duplicateOutputs => .cdk .duplicateInputs
  | .unknownKeySet => .cdk .unknownKeySet
  | .inactiveKeyset => .cdk .inactiveKeyset
  | error => .custom (link.describe error)

/-- What the client has of an answer. -/
def relay {α : Type} : Outcome Error α → Outcome ClientError α
  | .ok a => .ok a
  | .err e => .err (link.relayedError e)
  | .panic => .err (.custom link.failed)

/-- What the client has of the answer to a verification. -/
def relayVerified : Outcome Error Unit → Outcome ClientError Unit
  | .err .dhke => .err (.cdk .signatureMissingOrInvalid)
  | answer => link.relay answer

variable {link}

theorem toCdk_errorMessage {α : Type} (error : Error) :
    ((link.errorMessage error).toCdk : Outcome ClientError α) = .err (link.relayedError error) := by
  cases error <;> rfl

/-- A call whose messages are read as they were written returns what the signatory returns. -/
theorem call_eq {α β γ : Type} {toMessage : α → β} {answer : Outcome Error α}
    {fromMessage : β → Outcome ClientError γ} {read : α → γ}
    (hread : ∀ a, fromMessage (toMessage a) = .ok (read a)) :
    (do
      let response ← link.await (link.serve toMessage answer)
      let message ← handleError response
      fromMessage message) = link.relay (answer >>= fun a => .ok (read a)) := by
  cases answer with
  | ok a => exact hread a
  | err e =>
      change ((link.errorMessage e).toCdk >>= fromMessage) = .err (link.relayedError e)
      rw [toCdk_errorMessage, Outcome.bind_err]
  | panic => rfl

theorem readKeySet_keySetMessage (keyset : SignatoryKeySet) :
    link.readKeySet (link.keySetMessage keyset) = .ok keyset.ofKeys := by
  have hread : ∀ e : Nat × PublicKey, link.readKey (e.1, e.2.toBytes) = .ok e := by
    intro e
    simp [readKey, link.points.fromSlice_toBytes, Outcome.ofOption]
  simp only [readKeySet, keySetMessage, Outcome.ofOption_some, Outcome.bind_ok,
    Outcome.mapM_map_id hread, SignatoryProto.fromBytes_toBytes,
    SignatoryProto.CurrencyUnit.toCdk_ofCdk, Outcome.mapErr,
    OrderedMap.ofList_perm (link.order_perm keyset.keys.entries)]
  rfl

theorem relay_map_id {α : Type} (answer : Outcome Error α) :
    link.relay (answer >>= fun a => .ok a) = link.relay answer := by
  cases answer <;> rfl

variable (service : SignatoryService)

theorem blindSign_eq (messages : List BlindedMessage) :
    link.blindSign service messages = link.relay (service.blindSign messages) := by
  unfold blindSign
  rw [Outcome.mapM_map_id SignatoryProto.BlindedMessage.toCdk_ofCdk, Outcome.bind_ok,
    call_eq (Outcome.mapM_map_id SignatoryProto.BlindSignature.toCdk_ofCdk), relay_map_id]

theorem keysets_eq :
    link.keysets service = link.relay (service.keysets >>= fun keysets => .ok keysets.ofKeys) := by
  refine call_eq fun keysets => ?_
  rw [link.points.fromSlice_toBytes, Outcome.ofOption_some, Outcome.bind_ok,
    Outcome.mapM_map readKeySet_keySetMessage]
  rfl

theorem rotateKeyset_eq (arguments : RotateKeyArguments) :
    link.rotateKeyset service arguments =
      link.relay (service.rotateKeyset arguments >>= fun keyset => .ok keyset.ofKeys) := by
  unfold rotateKeyset
  simp only [Outcome.ofOption_some, Outcome.bind_ok, SignatoryProto.CurrencyUnit.toCdk_ofCdk]
  exact call_eq readKeySet_keySetMessage

theorem verifyProofs_eq (proofs : List Proof) :
    link.verifyProofs service proofs = link.relayVerified
      (service.verifyProofs (proofs.map fun p => { p with witness := none })) := by
  unfold verifyProofs
  rw [Outcome.mapM_map SignatoryProto.Proof.toCdk_ofCdk, Outcome.bind_ok]
  cases service.verifyProofs (proofs.map fun p => { p with witness := none }) with
  | ok u => rfl
  | panic => rfl
  | err e => cases e <;> rfl

/-- The signature of a proof is verified without its witness. -/
theorem signatoryVerifyProofs_witness {env : Env} {keysets : Keysets} (proofs : List Proof) :
    signatoryVerifyProofs env keysets (proofs.map fun p => { p with witness := none }) =
      signatoryVerifyProofs env keysets proofs := by
  induction proofs with
  | nil => rfl
  | cons p rest ih =>
      change (verifyOne env keysets p >>= fun _ =>
        signatoryVerifyProofs env keysets (rest.map fun p => { p with witness := none })) = _
      rw [ih]
      rfl

end SignatoryLink

/-- The client of a signatory in another process returns what the signatory returns: signatures
with their proofs, the result of a verification of the proofs without their witnesses, which the
database's signatory does not read, and keysets with the amounts of their keys. An error is relayed
as one of five, and none makes the client panic. -/
theorem remote_signatory_agrees (link : SignatoryLink) (service : SignatoryService) :
    (∀ messages, link.blindSign service messages = link.relay (service.blindSign messages)) ∧
      (∀ proofs, link.verifyProofs service proofs = link.relayVerified
        (service.verifyProofs (proofs.map fun p => { p with witness := none }))) ∧
      (∀ env keysets proofs, link.verifyProofs
          { service with verifyProofs := signatoryVerifyProofs env keysets } proofs =
        link.relayVerified (signatoryVerifyProofs env keysets proofs)) ∧
      link.keysets service = link.relay (service.keysets >>= fun keysets => .ok keysets.ofKeys) ∧
      ∀ arguments, link.rotateKeyset service arguments =
        link.relay (service.rotateKeyset arguments >>= fun keyset => .ok keyset.ofKeys) := by
  refine ⟨link.blindSign_eq service, link.verifyProofs_eq service, ?_, link.keysets_eq service,
    link.rotateKeyset_eq service⟩
  intro env keysets proofs
  rw [link.verifyProofs_eq]
  dsimp only
  rw [SignatoryLink.signatoryVerifyProofs_witness]

/-- Amounts that were given in another order come back in ascending order. -/
example :
    let link : SignatoryLink := ⟨.compressed, id, fun entries => .refl entries, fun _ => "", ""⟩
    let keyset : SignatoryKeySet :=
      ⟨.v1 1, .sat, true, OrderedMap.ofList [(8, ⟨false, 8⟩), (1, ⟨true, 1⟩)], [8, 1], 0, none⟩
    (link.readKeySet (link.keySetMessage keyset)).getD keyset =
      { keyset with amounts := [1, 8] } := by
  intro link keyset
  rw [SignatoryLink.readKeySet_keySetMessage]
  rfl

end Cdk
