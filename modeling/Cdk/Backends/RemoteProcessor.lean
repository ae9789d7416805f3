import Cdk.Backends.MeltCost
import Cdk.Backends.PaymentStatus
import Cdk.Nuts.IdCodecs
import Cdk.Wallet.Texts

/-!
# Payment processors in another process

A mint can leave its payments to a processor in another process. Every call is a
message, and so is every answer: identifiers and states travel as numbers, and
hashes and units as texts. The identifier of an LDK payment is written and not read.
An answer that is lost or cannot be read is an error of the call, after which a melt
asks for the state of its payment.
-/

namespace Cdk

open Lib

/-! ## Messages -/

namespace Proto

inductive PaymentIdentifierType where
  | paymentHash
  | offerId
  | label
  | bolt12PaymentHash
  | customId
  | paymentId
deriving DecidableEq, Repr

namespace PaymentIdentifierType

/-- The number of a type in a message. -/
def toNumber : PaymentIdentifierType → Nat
  | .paymentHash => 0
  | .offerId => 1
  | .label => 2
  | .bolt12PaymentHash => 3
  | .customId => 4
  | .paymentId => 5

/-- The type of a number; a number without a type is read as the first one. -/
def ofNumber : Nat → PaymentIdentifierType
  | 1 => .offerId
  | 2 => .label
  | 3 => .bolt12PaymentHash
  | 4 => .customId
  | 5 => .paymentId
  | _ => .paymentHash

@[simp] theorem ofNumber_toNumber (type : PaymentIdentifierType) :
    ofNumber type.toNumber = type := by
  cases type <;> rfl

end PaymentIdentifierType

inductive PaymentIdentifierValue where
  | hash (text : String)
  | id (text : String)
deriving DecidableEq, Repr

structure PaymentIdentifier where
  type : Nat
  value : Option PaymentIdentifierValue
deriving DecidableEq, Repr

namespace PaymentIdentifier

/-- `PaymentIdentifier::from`. -/
def ofCdk : Cdk.PaymentIdentifier → PaymentIdentifier
  | .label id => ⟨PaymentIdentifierType.label.toNumber, some (.id id)⟩
  | .offerId id => ⟨PaymentIdentifierType.offerId.toNumber, some (.id id)⟩
  | .paymentHash hash =>
      ⟨PaymentIdentifierType.paymentHash.toNumber, some (.hash (paymentHashText hash))⟩
  | .bolt12PaymentHash hash =>
      ⟨PaymentIdentifierType.bolt12PaymentHash.toNumber, some (.hash (paymentHashText hash))⟩
  | .customId id => ⟨PaymentIdentifierType.customId.toNumber, some (.id id)⟩
  | .paymentId id => ⟨PaymentIdentifierType.paymentId.toNumber, some (.hash (paymentHashText id))⟩

/-- The 32 bytes of a hash in hexadecimal digits. -/
def readHash (text : String) : Option (BitVec 256) :=
  match hexDecode text with
  | .ok bytes => if bytes.length = 32 then some (BitVec.ofNat 256 (ofBytes bytes)) else none
  | _ => none

/-- `PaymentIdentifier::try_from`, which has no case for the identifier of an LDK payment. -/
def toCdk (message : PaymentIdentifier) : Option Cdk.PaymentIdentifier :=
  match PaymentIdentifierType.ofNumber message.type, message.value with
  | .label, some (.id id) => some (.label id)
  | .offerId, some (.id id) => some (.offerId id)
  | .paymentHash, some (.hash hash) => (readHash hash).map .paymentHash
  | .bolt12PaymentHash, some (.hash hash) => (readHash hash).map .bolt12PaymentHash
  | .customId, some (.id id) => some (.customId id)
  | _, _ => none

theorem readHash_paymentHashText (hash : BitVec 256) :
    readHash (paymentHashText hash) = some hash := by
  have hdecode : hexDecode (paymentHashText hash) = .ok (bytesOf 32 hash.toNat) := by
    rw [hexDecode_eq, hexDecodeSlice_eq_ok, paymentHashText, utf8_hexDigits 32,
      map_asciiLowercase_hexEncodeBytes]
  have hvalue : ofBytes (bytesOf 32 hash.toNat) = hash.toNat := by
    rw [ofBytes_bytesOf]
    exact Nat.mod_eq_of_lt (lt_of_lt_of_eq hash.isLt (by norm_num))
  simp [readHash, hdecode, hvalue]

end PaymentIdentifier

end Proto

/-- An identifier that is read as it was written. -/
def PaymentIdentifier.isRead : PaymentIdentifier → Bool
  | .paymentId _ => false
  | _ => true

theorem Proto.PaymentIdentifier.toCdk_ofCdk (id : Cdk.PaymentIdentifier) :
    (ofCdk id).toCdk = if id.isRead then some id else none := by
  cases id <;> simp [ofCdk, toCdk, readHash_paymentHashText, Cdk.PaymentIdentifier.isRead]

namespace Proto

inductive QuoteState where
  | unpaid
  | paid
  | pending
  | unknown
  | failed
  | issued
deriving DecidableEq, Repr

namespace QuoteState

/-- The number of a state in a message. -/
def toNumber : QuoteState → Nat
  | .unpaid => 0
  | .paid => 1
  | .pending => 2
  | .unknown => 3
  | .failed => 4
  | .issued => 5

/-- The state of a number; a number without a state is read as the first one. -/
def ofNumber : Nat → QuoteState
  | 1 => .paid
  | 2 => .pending
  | 3 => .unknown
  | 4 => .failed
  | 5 => .issued
  | _ => .unpaid

/-- `QuoteState::as_str_name`. -/
def asStrName : QuoteState → String
  | .unpaid => "UNPAID"
  | .paid => "PAID"
  | .pending => "PENDING"
  | .unknown => "UNKNOWN"
  | .failed => "FAILED"
  | .issued => "ISSUED"

/-- `QuoteState::from` of the state of a melt quote. -/
def ofMelt : MeltQuoteState → QuoteState
  | .unpaid => .unpaid
  | .paid => .paid
  | .pending => .pending
  | .unknown => .unknown
  | .failed => .failed

theorem fromStr_asStrName (state : MeltQuoteState) :
    MeltQuoteState.fromStr (ofNumber (ofMelt state).toNumber).asStrName = some state := by
  cases state <;> rfl

end QuoteState

structure MakePaymentResponse where
  paymentIdentifier : Option PaymentIdentifier
  status : Nat
  totalSpent : Amount
  unit : String
deriving DecidableEq, Repr

/-- `MakePaymentResponse::from`. -/
def MakePaymentResponse.ofCdk (casing : Casing) (value : Cdk.MakePaymentResponse) :
    MakePaymentResponse where
  paymentIdentifier := some (.ofCdk value.paymentLookupId)
  status := (QuoteState.ofMelt value.status).toNumber
  totalSpent := value.totalSpent
  unit := value.unit.toText casing

/-- `MakePaymentResponse::try_from`. -/
def MakePaymentResponse.toCdk (casing : Casing) (value : MakePaymentResponse) :
    Option Cdk.MakePaymentResponse := do
  let status ← MeltQuoteState.fromStr (QuoteState.ofNumber value.status).asStrName
  let identifier ← value.paymentIdentifier
  let lookup ← identifier.toCdk
  some ⟨lookup, status, value.totalSpent, CurrencyUnit.fromStr casing value.unit⟩

end Proto

/-- A response with the unit that its text is read as. -/
def MakePaymentResponse.received (casing : Casing) (response : MakePaymentResponse) :
    MakePaymentResponse :=
  { response with unit := CurrencyUnit.fromStr casing (response.unit.toText casing) }

theorem MakePaymentResponse.received_eq {casing : Casing} {response : MakePaymentResponse}
    (h : response.unit.Canonical casing) : response.received casing = response := by
  rw [received, h]

theorem Proto.MakePaymentResponse.toCdk_ofCdk (casing : Casing)
    (response : Cdk.MakePaymentResponse) :
    (ofCdk casing response).toCdk casing =
      if response.paymentLookupId.isRead then some (response.received casing) else none := by
  simp only [toCdk, ofCdk, QuoteState.fromStr_asStrName, Option.bind_eq_bind, Option.bind_some,
    PaymentIdentifier.toCdk_ofCdk]
  split <;> rfl

/-! ## Calls -/

/-- The errors of a payment that the server tells apart. -/
inductive ProcessorError where
  | invoiceAlreadyPaid
  | invoicePaymentPending
  | other
deriving DecidableEq, Repr

/-- The error that a melt is handed in the same process. -/
def ProcessorError.toPaymentError : ProcessorError → PaymentError
  | .invoiceAlreadyPaid => .invoiceAlreadyPaid
  | _ => .other

/-- The text of the status that the server answers with. -/
def ProcessorError.status : ProcessorError → String
  | .invoiceAlreadyPaid => "Payment request already paid"
  | .invoicePaymentPending => "Payment request pending"
  | .other => "Could not pay invoice"

/-- `str::contains`. -/
def containsText (text part : String) : Bool :=
  text.toList.tails.any part.toList.isPrefixOf

/-- The error that the client reads from the text of a status. A pending payment is another error
to a melt. -/
def clientError (message : String) : PaymentError :=
  if containsText message "already paid" then .invoiceAlreadyPaid else .other

theorem clientError_status (error : ProcessorError) :
    clientError error.status = error.toPaymentError := by
  cases error <;> decide +kernel

/-- A processor while it makes one payment: its answers to the payment in a unit, and to the checks
after it. -/
structure Processor where
  makePayment : CurrencyUnit → Except ProcessorError MakePaymentResponse
  checkOutgoingPayment : PaymentIdentifier → Option MakePaymentResponse

/-- What gets lost between the mint and a processor: the answer to the payment, of which the mint
sees the text of an error, and the checks. -/
structure ProcessorLink where
  lostPayment : Option String
  checks : Bool

/-- Nothing gets lost. -/
def ProcessorLink.reliable : ProcessorLink := ⟨none, true⟩

namespace Processor

variable (casing : Casing) (connection : ProcessorLink) (processor : Processor)

/-- The processor in the same process. -/
def inProcess (unit : CurrencyUnit) : PaymentBackend where
  makePayment := match processor.makePayment unit with
    | .ok response => .ok response
    | .error error => .error error.toPaymentError
  checkOutgoingPayment := processor.checkOutgoingPayment

/-- `PaymentProcessorServer::make_payment`, which pays in millisatoshi. -/
def serverMakePayment : Except String Proto.MakePaymentResponse :=
  match processor.makePayment .msat with
  | .ok response => .ok (.ofCdk casing response)
  | .error error => .error error.status

/-- `PaymentProcessorClient::make_payment`, from the answer of the server on. -/
def clientMakePayment (answer : Except String Proto.MakePaymentResponse) :
    Except PaymentError MakePaymentResponse :=
  match answer with
  | .error message => .error (clientError message)
  | .ok response =>
      match response.toCdk casing with
      | some response => .ok response
      | none => .error .other

/-- `PaymentProcessorServer::check_outgoing_payment`. -/
def serverCheckOutgoingPayment (requestIdentifier : Option Proto.PaymentIdentifier) :
    Option Proto.MakePaymentResponse := do
  let identifier ← requestIdentifier
  let paymentIdentifier ← identifier.toCdk
  let response ← processor.checkOutgoingPayment paymentIdentifier
  some (.ofCdk casing response)

/-- `PaymentProcessorClient::check_outgoing_payment`. -/
def clientCheckOutgoingPayment (paymentIdentifier : PaymentIdentifier) :
    Option MakePaymentResponse := do
  let response ← if connection.checks then
      serverCheckOutgoingPayment casing processor (some (.ofCdk paymentIdentifier))
    else none
  response.toCdk casing

/-- The processor as the mint sees it through its client. -/
def remote : PaymentBackend where
  makePayment := clientMakePayment casing (match connection.lostPayment with
    | some message => .error message
    | none => serverMakePayment casing processor)
  checkOutgoingPayment := clientCheckOutgoingPayment casing connection processor

end Processor

/-! ## What the mint learns -/

namespace Processor

/-- The answer to a check that reaches the mint. -/
def reported (connection : ProcessorLink) (processor : Processor) (lookup : PaymentIdentifier) :
    Option MakePaymentResponse :=
  if connection.checks = true ∧ lookup.isRead = true then
    (processor.checkOutgoingPayment lookup).filter fun check => check.paymentLookupId.isRead
  else none

/-- The answer to the payment reaches the mint. -/
def Arrives (connection : ProcessorLink) (response : MakePaymentResponse) : Prop :=
  connection.lostPayment = none ∧ response.paymentLookupId.isRead = true

instance (connection : ProcessorLink) (response : MakePaymentResponse) :
    Decidable (Arrives connection response) := inferInstanceAs (Decidable (_ ∧ _))

variable {casing : Casing} {connection : ProcessorLink} {processor : Processor} {quote : MeltQuote}
  {pay : MakePaymentResponse}

theorem remote_checkOutgoingPayment (lookup : PaymentIdentifier) :
    (processor.remote casing connection).checkOutgoingPayment lookup =
      (processor.reported connection lookup).map (MakePaymentResponse.received casing) := by
  simp only [remote, clientCheckOutgoingPayment, serverCheckOutgoingPayment, reported,
    Option.bind_eq_bind, Option.bind_some, Proto.PaymentIdentifier.toCdk_ofCdk]
  cases hchecks : connection.checks with
  | false => simp
  | true =>
      cases hread : lookup.isRead with
      | false => simp
      | true =>
          cases hcheck : processor.checkOutgoingPayment lookup with
          | none => simp [hcheck]
          | some check =>
              cases hlookup : check.paymentLookupId.isRead <;>
                simp [hcheck, hlookup, Proto.MakePaymentResponse.toCdk_ofCdk]

theorem remote_makePayment_of_arrives (hpay : processor.makePayment .msat = .ok pay)
    (harrives : Arrives connection pay) :
    (processor.remote casing connection).makePayment = .ok (pay.received casing) := by
  obtain ⟨hlost, hread⟩ := harrives
  simp [remote, clientMakePayment, serverMakePayment, hlost, hpay,
    Proto.MakePaymentResponse.toCdk_ofCdk, hread]

end Processor

/-! ## Melts that lose their payment -/

section Held

variable {env : Env} {keysets : Keysets} {backends : Backends} {backend : PaymentBackend}
  {request : MeltRequest} {operationId : Uuid} {quote : MeltQuote} {rows : List ProofRow}
  {db db' : Db} {response : MakePaymentResponse}

end Held

/-- The text of the units of the example in upper case. -/
def sampleUnitCasing : Casing :=
  ⟨id, fun text => if text = "sat" then "SAT" else if text = "msat" then "MSAT" else text⟩

/-- Two responses that a melt cannot tell apart. -/
structure MakePaymentResponse.Agrees (quote : MeltQuote)
    (response response' : MakePaymentResponse) :
    Prop where
  lookup : response.paymentLookupId = response'.paymentLookupId
  status : response.status = response'.status
  spent : amountSpent quote response = amountSpent quote response'

/-- Two decisions that a melt cannot tell apart. -/
def PaymentDecision.Agrees (quote : MeltQuote) (decision decision' : PaymentDecision) : Prop :=
  decision = decision' ∨ ∃ response response', decision = .settle response ∧
    decision' = .settle response' ∧ response.Agrees quote response'

/-- Two backends that a melt of a quote cannot tell apart. -/
structure PaymentBackend.Agrees (quote : MeltQuote) (backend backend' : PaymentBackend) : Prop where
  payment : (∃ error, backend.makePayment = .error error ∧ backend'.makePayment = .error error) ∨
    ∃ pay pay', backend.makePayment = .ok pay ∧ backend'.makePayment = .ok pay' ∧
      pay.Agrees quote pay' ∧
      Option.Rel (MakePaymentResponse.Agrees quote)
        (backend.checkOutgoingPayment pay.paymentLookupId)
        (backend'.checkOutgoingPayment pay.paymentLookupId)
  requested : ∀ lookup, quote.requestLookupId = some lookup →
    Option.Rel (MakePaymentResponse.Agrees quote) (backend.checkOutgoingPayment lookup)
      (backend'.checkOutgoingPayment lookup)

section Agreement

variable {env : Env} {keysets : Keysets} {backends : Backends} {backend backend' : PaymentBackend}
  {quote : MeltQuote} {response response' : MakePaymentResponse}

theorem MakePaymentResponse.Agrees.refl (response : MakePaymentResponse) :
    response.Agrees quote response := ⟨rfl, rfl, rfl⟩

theorem checks_agree (check : Option MakePaymentResponse) :
    Option.Rel (MakePaymentResponse.Agrees quote) check check := by
  cases check with
  | none => exact .none
  | some check => exact .some (.refl check)

theorem PaymentBackend.Agrees.refl (backend : PaymentBackend) : backend.Agrees quote backend := by
  refine ⟨?_, fun lookup _ => checks_agree _⟩
  cases backend.makePayment with
  | ok pay => exact .inr ⟨pay, pay, rfl, rfl, .refl pay, checks_agree _⟩
  | error error => exact .inl ⟨error, rfl, rfl⟩

theorem decideByStatus_agrees (h : response.Agrees quote response') :
    PaymentDecision.Agrees quote (decideByStatus response) (decideByStatus response') := by
  unfold decideByStatus
  rw [h.status]
  cases response'.status with
  | paid => exact .inr ⟨response, response', rfl, rfl, h⟩
  | unpaid | pending | unknown | failed => exact .inl rfl

theorem decideByCheck_agrees (h : response.Agrees quote response') :
    PaymentDecision.Agrees quote (decideByCheck response) (decideByCheck response') := by
  unfold decideByCheck
  rw [h.status]
  split
  · exact .inl rfl
  · exact decideByStatus_agrees h

theorem decidePayment_agrees (h : backend.Agrees quote backend') :
    PaymentDecision.Agrees quote (decidePayment backend quote) (decidePayment backend' quote) := by
  unfold decidePayment
  rcases h.payment with ⟨error, herror, herror'⟩ | ⟨pay, pay', hpay, hpay', hsame, hcheck⟩
  · rw [herror, herror']
    cases error with
    | invoiceAlreadyPaid => exact .inl rfl
    | other =>
        cases hlookup : quote.requestLookupId with
        | none => exact .inl rfl
        | some lookup =>
            have hrequested := h.requested lookup hlookup
            dsimp only
            generalize backend.checkOutgoingPayment lookup = check,
              backend'.checkOutgoingPayment lookup = check' at hrequested ⊢
            cases hrequested with
            | none => exact .inl rfl
            | some hagree => exact decideByCheck_agrees hagree
  · rw [hpay, hpay']
    dsimp only
    rw [← hsame.status, ← hsame.lookup]
    split
    · generalize backend.checkOutgoingPayment pay.paymentLookupId = check,
        backend'.checkOutgoingPayment pay.paymentLookupId = check' at hcheck ⊢
      cases hcheck with
      | none => exact .inl rfl
      | some hagree => exact decideByCheck_agrees hagree
    · exact decideByStatus_agrees hsame

theorem settleExternal_congr (h : response.Agrees quote response') (writer : ProofWriter) :
    settleExternal env keysets writer quote response =
      settleExternal env keysets writer quote response' := by
  unfold settleExternal
  rw [h.lookup, h.spent]

theorem payExternally_congr (h : backend.Agrees quote backend') (writer : ProofWriter) (db : Db) :
    payExternally env keysets backend writer quote db =
      payExternally env keysets backend' writer quote db := by
  unfold payExternally
  rcases decidePayment_agrees h with hsame | ⟨response, response', hdec, hdec', hagree⟩
  · rw [hsame]
  · rw [hdec, hdec']
    simp only [finishPaid, settleExternal_congr hagree]

/-- A melt does not tell backends apart that agree on the quote it hands them. -/
theorem melt_congr {now : Nat} {operationId : Uuid} {request : MeltRequest} {db : Db}
    (h : ∀ writer quote reserved, startMelt env keysets backends now operationId request db =
      .ok ((writer, .external quote), reserved) → backend.Agrees quote backend') :
    melt env keysets backends backend now operationId request db =
      melt env keysets backends backend' now operationId request db := by
  unfold melt
  cases hstart : startMelt env keysets backends now operationId request db with
  | err failure => rfl
  | panic => rfl
  | ok result =>
      obtain ⟨⟨writer, start⟩, reserved⟩ := result
      cases start with
      | settled change => rfl
      | external quote => exact payExternally_congr (h writer quote reserved hstart) writer reserved

end Agreement

/-- The identifiers that a processor is asked about and answers with are read, and so are its
units. -/
structure Processor.Readable (casing : Casing) (processor : Processor) : Prop where
  payment : ∀ pay, processor.makePayment .msat = .ok pay →
    pay.paymentLookupId.isRead = true ∧ pay.unit.Canonical casing
  check : ∀ lookup check, lookup.isRead = true →
    processor.checkOutgoingPayment lookup = some check →
    check.paymentLookupId.isRead = true ∧ check.unit.Canonical casing

section Nodes

variable {casing : Casing} {processor : Processor} {backend : PaymentBackend} {quote : MeltQuote}

/-- Nothing of a processor that is readable gets lost on a reliable connection. -/
theorem Processor.Readable.remote_agrees (h : processor.Readable casing)
    (hrequested : ∀ lookup, quote.requestLookupId = some lookup → lookup.isRead = true)
    (hagrees : (processor.inProcess .msat).Agrees quote backend) :
    (processor.remote casing .reliable).Agrees quote backend := by
  have hcheck : ∀ lookup, lookup.isRead = true →
      (processor.remote casing .reliable).checkOutgoingPayment lookup =
        (processor.inProcess .msat).checkOutgoingPayment lookup := by
    intro lookup hread
    rw [remote_checkOutgoingPayment, reported, if_pos ⟨rfl, hread⟩]
    change _ = processor.checkOutgoingPayment lookup
    cases hanswer : processor.checkOutgoingPayment lookup with
    | none => rfl
    | some check =>
        obtain ⟨hlookup, hunit⟩ := h.check lookup check hread hanswer
        simp [hlookup, MakePaymentResponse.received_eq hunit]
  have hpayment : (processor.remote casing .reliable).makePayment =
      (processor.inProcess .msat).makePayment := by
    cases hpay : processor.makePayment .msat with
    | ok pay =>
        obtain ⟨hread, hunit⟩ := h.payment pay hpay
        rw [remote_makePayment_of_arrives hpay ⟨rfl, hread⟩, MakePaymentResponse.received_eq hunit]
        simp [inProcess, hpay]
    | error error =>
        simp [remote, clientMakePayment, serverMakePayment, ProcessorLink.reliable, inProcess, hpay,
          clientError_status]
  refine ⟨?_, fun lookup hlookup => ?_⟩
  · rw [hpayment]
    rcases hagrees.payment with herror | ⟨pay, pay', hpay, hpay', hsame, hchecks⟩
    · exact .inl herror
    · refine .inr ⟨pay, pay', hpay, hpay', hsame, ?_⟩
      rw [hcheck]
      · exact hchecks
      · simp only [inProcess] at hpay
        split at hpay
        next hmade => exact Except.ok.inj hpay ▸ (h.payment _ hmade).1
        next => cases hpay
  · rw [hcheck lookup (hrequested lookup hlookup)]
    exact hagrees.requested lookup hlookup

/-- What a payment in the same process is answered with. -/
theorem Processor.makePayment_of_inProcess {unit : CurrencyUnit}
    (h : processor.inProcess unit = backend) {pay : MakePaymentResponse}
    (hpay : processor.makePayment unit = .ok pay) : backend.makePayment = .ok pay := by
  rw [← h]
  simp [inProcess, hpay]

theorem Processor.check_of_inProcess {unit : CurrencyUnit} (h : processor.inProcess unit = backend)
    (lookup : PaymentIdentifier) :
    processor.checkOutgoingPayment lookup = backend.checkOutgoingPayment lookup := by
  rw [← h]
  rfl

/-- A payment of CLN costs the same in millisatoshi as in the unit of the quote. -/
theorem Cln.Node.agrees (node : Cln.Node) (options : Bolt11OutgoingPaymentOptions)
    (hunit : quote.unit = .sat ∨ quote.unit = .msat) :
    (node.backend .msat options).Agrees quote (node.backend quote.unit options) := by
  refine ⟨?_, fun lookup _ => checks_agree _⟩
  simp only [Cln.Node.backend, Cln.makePayment]
  cases checkOutgoingUnpaided (Cln.checkOutgoingPayment node.before
      (.paymentHash options.bolt11.paymentHash)) with
  | error error => exact .inl ⟨error, rfl, rfl⟩
  | ok _ =>
      cases node.pay (Cln.payRequest options) with
      | none => exact .inl ⟨.other, rfl, rfl⟩
      | some answer =>
          have hspent : toUnit answer.amountSentMsat .msat quote.unit =
              .ok ⟨answer.amountSentMsat.toNat / msatPerUnit quote.unit,
                lt_of_le_of_lt (Nat.div_le_self _ _) answer.amountSentMsat.isLt⟩ :=
            (toUnit_of_msat hunit).mpr rfl
          have hmade : Cln.paymentResponse quote.unit answer =
              .ok ⟨.paymentHash answer.paymentHash, answer.status.toMintState,
                ⟨answer.amountSentMsat.toNat / msatPerUnit quote.unit,
                  lt_of_le_of_lt (Nat.div_le_self _ _) answer.amountSentMsat.isLt⟩,
                quote.unit⟩ := by
            rw [Cln.paymentResponse, hspent]
          refine .inr ⟨_, _, rfl, hmade, ⟨rfl, rfl, ?_⟩, checks_agree _⟩
          simp [amountSpent, hspent, toUnit_self hunit]

theorem Cln.Node.readable {node : Cln.Node} {options : Bolt11OutgoingPaymentOptions}
    (hmsat : CurrencyUnit.Canonical casing .msat)
    (h : processor.inProcess .msat = node.backend .msat options) : processor.Readable casing where
  payment pay hpay := by
    obtain ⟨answer, totalSpent, -, -, rfl⟩ :=
      Cln.makePayment_ok (Processor.makePayment_of_inProcess h hpay)
    exact ⟨rfl, hmsat⟩
  check lookup check hread hcheck := by
    rw [Processor.check_of_inProcess h] at hcheck
    simp only [Cln.Node.backend, Cln.checkOutgoingPayment] at hcheck
    split at hcheck
    · obtain ⟨pays, -, rfl⟩ := Option.map_eq_some_iff.mp hcheck
      split <;> exact ⟨rfl, hmsat⟩
    · obtain ⟨pays, -, rfl⟩ := Option.map_eq_some_iff.mp hcheck
      split <;> exact ⟨rfl, hmsat⟩
    · cases hcheck

theorem Lnd.Node.readable {node : Lnd.Node} {options : Bolt11OutgoingPaymentOptions}
    (hsat : CurrencyUnit.Canonical casing .sat) (hmsat : CurrencyUnit.Canonical casing .msat)
    (h : processor.inProcess .msat = node.backend options) : processor.Readable casing where
  payment pay hpay := by
    obtain ⟨amount, n, last, -, -, rfl⟩ | ⟨answer, -, rfl⟩ :=
      Lnd.pay_ok (Lnd.makePayment_ok (Processor.makePayment_of_inProcess h hpay))
    · exact ⟨rfl, hsat⟩
    · exact ⟨rfl, hsat⟩
  check lookup check hread hcheck := by
    rw [Processor.check_of_inProcess h] at hcheck
    simp only [Lnd.Node.backend, Lnd.checkOutgoingPayment] at hcheck
    split at hcheck
    next =>
      rw [← Option.some.inj hcheck]
      exact ⟨hread, hmsat⟩
    next => cases hcheck
    next payments _ =>
      obtain ⟨payment, -, hresponse⟩ := Option.bind_eq_some_iff.mp hcheck
      unfold Lnd.updateResponse at hresponse
      dsimp only at hresponse
      split at hresponse
      · split at hresponse
        · rw [← Option.some.inj hresponse]
          exact ⟨hread, hsat⟩
        · cases hresponse
      · rw [← Option.some.inj hresponse]
        exact ⟨hread, hmsat⟩
      · rw [← Option.some.inj hresponse]
        exact ⟨hread, hmsat⟩

end Nodes

/-- A melt in satoshi or millisatoshi that CLN or LND pays ends the same, with the same database,
when the backend of the node runs in another process, on a connection that loses nothing. -/
theorem remote_nodes_agree (casing : Casing) (hsat : CurrencyUnit.Canonical casing .sat)
    (hmsat : CurrencyUnit.Canonical casing .msat) (processor : Processor)
    (options : Bolt11OutgoingPaymentOptions) (backend : CurrencyUnit → PaymentBackend)
    (hnode : (∃ node : Cln.Node, ∀ unit, backend unit = node.backend unit options) ∨
      ∃ node : Lnd.Node, ∀ unit, backend unit = node.backend options)
    (hprocessor : ∀ unit, processor.inProcess unit = backend unit) (env : Env) (keysets : Keysets)
    (backends : Backends) (now : Nat) (operationId : Uuid) (request : MeltRequest) (db : Db)
    (unit : CurrencyUnit) (hunit : unit = .sat ∨ unit = .msat)
    (hquote : ∀ writer quote reserved,
      startMelt env keysets backends now operationId request db =
        .ok ((writer, .external quote), reserved) →
      quote.unit = unit ∧ ∀ lookup, quote.requestLookupId = some lookup → lookup.isRead = true) :
    melt env keysets backends (processor.remote casing .reliable) now operationId request db =
      melt env keysets backends (backend unit) now operationId request db := by
  refine melt_congr fun writer quote reserved hstart => ?_
  obtain ⟨rfl, hread⟩ := hquote writer quote reserved hstart
  rcases hnode with ⟨node, hnode⟩ | ⟨node, hnode⟩
  · have hmade := (hprocessor .msat).trans (hnode .msat)
    refine (Cln.Node.readable hmsat hmade).remote_agrees hread ?_
    rw [hmade, hnode]
    exact node.agrees options hunit
  · have hmade := (hprocessor .msat).trans (hnode .msat)
    refine (Lnd.Node.readable hsat hmsat hmade).remote_agrees hread ?_
    rw [hmade, hnode]
    exact .refl (node.backend options)

/-- A CLN node that pays the invoice of a quote, in another process. -/
def samplePayingNode : Cln.Node :=
  ⟨fun _ => some [], fun _ => some ⟨1, .complete, 8000⟩, fun _ => some [⟨.complete, some 8000⟩]⟩

def samplePaying : Processor where
  makePayment unit := match (samplePayingNode.backend unit
      (samplePaidQuote.outgoing samplePaidInvoice)).makePayment with
    | .ok response => .ok response
    | .error .invoiceAlreadyPaid => .error .invoiceAlreadyPaid
    | .error .other => .error .other
  checkOutgoingPayment := Cln.checkOutgoingPayment samplePayingNode.after

theorem samplePaying_inProcess (unit : CurrencyUnit) : samplePaying.inProcess unit =
    samplePayingNode.backend unit (samplePaidQuote.outgoing samplePaidInvoice) := by
  have hmade : (samplePaying.inProcess unit).makePayment = (samplePayingNode.backend unit
      (samplePaidQuote.outgoing samplePaidInvoice)).makePayment := by
    simp only [Processor.inProcess, samplePaying]
    cases (samplePayingNode.backend unit (samplePaidQuote.outgoing samplePaidInvoice)).makePayment
      with
    | ok response => rfl
    | error error => cases error <;> rfl
  exact congrArg₂ PaymentBackend.mk hmade rfl

theorem remote_nodes_agree_sample :
    (melt sampleEnv [sampleKeyset] (fun _ _ => true)
        (samplePaying.remote sampleUnitCasing .reliable) 0 1 samplePayment samplePaidWorld.db).1 =
      .ok () := by
  have hquote : ∀ writer quote reserved,
      startMelt sampleEnv [sampleKeyset] (fun _ _ => true) 0 1 samplePayment samplePaidWorld.db =
        .ok ((writer, .external quote), reserved) →
      quote.unit = .sat ∧ ∀ lookup, quote.requestLookupId = some lookup → lookup.isRead = true := by
    intro writer quote reserved hstart
    have hsample : startMelt sampleEnv [sampleKeyset] (fun _ _ => true) 0 1 samplePayment
        samplePaidWorld.db = .ok ((samplePaidStarted.1.1,
          .external { samplePaidQuote with state := .pending }), samplePaidStarted.2) := by
      decide +kernel
    cases hstart.symm.trans hsample
    exact ⟨rfl, fun lookup hlookup => Option.some.inj hlookup ▸ rfl⟩
  rw [remote_nodes_agree sampleUnitCasing (by rw [CurrencyUnit.Canonical]; decide +kernel)
    (by rw [CurrencyUnit.Canonical]; decide +kernel) samplePaying
    (samplePaidQuote.outgoing samplePaidInvoice)
    (fun unit => samplePayingNode.backend unit (samplePaidQuote.outgoing samplePaidInvoice))
    (.inl ⟨samplePayingNode, fun _ => rfl⟩) samplePaying_inProcess sampleEnv [sampleKeyset]
    (fun _ _ => true) 0 1 samplePayment samplePaidWorld.db .sat (.inl rfl) hquote]
  decide +kernel

end Cdk
