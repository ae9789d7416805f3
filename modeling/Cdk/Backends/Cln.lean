import Cdk.Backends.Bolt11

/-!
# The CLN backend

The quotes, the payments and the status checks of the backend for a CLN node. The
answers of the node are parameters; a call that fails has none.
-/

namespace Cdk

open Lib

namespace Cln

/-! ## Outgoing payments -/

/-- The amount that a quote is for. The guard against another amount than the one of the invoice
compares with the complement of its bits. -/
def quotedMsat (options : Bolt11OutgoingPaymentOptions) : Outcome PaymentQuoteError Amount :=
  match options.meltOptions with
  | some (.amountless amountMsat) =>
      match options.bolt11.amountMilliSatoshis with
      | some invoiceAmount =>
          if 2 ^ 64 - 1 - invoiceAmount.toNat = amountMsat.toNat then .err .amountMismatch
          else .ok amountMsat
      | none => .ok amountMsat
  | some (.mpp amount) => .ok amount
  | none => .ofOption .unknownInvoiceAmount options.bolt11.amountMilliSatoshis

/-- `Cln::get_payment_quote` of an invoice. -/
def getPaymentQuote (reserve : FeeReserve) (unit : CurrencyUnit)
    (options : Bolt11OutgoingPaymentOptions) : Outcome PaymentQuoteError PaymentQuoteResponse := do
  let amountMsat ← quotedMsat options
  quoteMsat reserve unit options.bolt11 amountMsat

/-- The states of payments at the node. -/
inductive PayStatus where
  | pending
  | complete
  | failed
deriving DecidableEq, Repr

/-- `cln_pays_status_to_mint_state`. -/
def PayStatus.toMintState : PayStatus → MeltQuoteState
  | .pending => .pending
  | .complete => .paid
  | .failed => .failed

/-- A payment that the node lists. -/
structure PayRecord where
  status : PayStatus
  amountSentMsat : Option Amount
deriving DecidableEq, Repr

/-- `Cln::check_outgoing_payment`, which looks at the first payment that the node lists. -/
def checkOutgoingPayment (listpays : BitVec 256 → Option (List PayRecord)) :
    PaymentIdentifier → Option MakePaymentResponse
  | .paymentHash hash => answer (.paymentHash hash) (listpays hash)
  | .bolt12PaymentHash hash => answer (.bolt12PaymentHash hash) (listpays hash)
  | _ => none
where
  answer (identifier : PaymentIdentifier) (pays : Option (List PayRecord)) :
      Option MakePaymentResponse :=
    pays.map fun pays =>
      match pays.head? with
      | some pay => ⟨identifier, pay.status.toMintState, pay.amountSentMsat.getD .zero, .msat⟩
      | none => ⟨identifier, .unknown, .zero, .msat⟩

/-- What the node is asked to pay. -/
structure PayRequest where
  bolt11 : Bolt11Invoice
  amountMsat : Option Amount
  maxfee : Option Amount
  partialMsat : Option Amount
deriving DecidableEq, Repr

structure PayResponse where
  paymentHash : BitVec 256
  status : PayStatus
  amountSentMsat : Amount
deriving DecidableEq, Repr

/-- The request of a payment; the reserve is handed over as millisatoshi in every unit. -/
def payRequest (options : Bolt11OutgoingPaymentOptions) : PayRequest where
  bolt11 := options.bolt11
  amountMsat := match options.meltOptions with
    | some (.amountless amountMsat) => some amountMsat
    | _ => none
  maxfee := options.maxFeeAmount
  partialMsat := match options.meltOptions with
    | some (.mpp amount) => some amount
    | _ => none

/-- The answer to a payment that the node has answered. -/
def paymentResponse (unit : CurrencyUnit) (response : PayResponse) :
    Except PaymentError MakePaymentResponse :=
  match toUnit response.amountSentMsat .msat unit with
  | .ok totalSpent =>
      .ok ⟨.paymentHash response.paymentHash, response.status.toMintState, totalSpent, unit⟩
  | _ => .error .other

/-- `Cln::make_payment` of an invoice. -/
def makePayment (listpays : BitVec 256 → Option (List PayRecord))
    (pay : PayRequest → Option PayResponse) (unit : CurrencyUnit)
    (options : Bolt11OutgoingPaymentOptions) : Except PaymentError MakePaymentResponse := do
  checkOutgoingUnpaided (checkOutgoingPayment listpays (.paymentHash options.bolt11.paymentHash))
  match pay (payRequest options) with
  | none => .error .other
  | some response => paymentResponse unit response

/-- What a payment that returns has asked the node and answered. -/
theorem makePayment_ok {listpays : BitVec 256 → Option (List PayRecord)}
    {pay : PayRequest → Option PayResponse} {unit : CurrencyUnit}
    {options : Bolt11OutgoingPaymentOptions} {response : MakePaymentResponse}
    (h : makePayment listpays pay unit options = .ok response) :
    ∃ answer totalSpent, pay (payRequest options) = some answer ∧
      toUnit answer.amountSentMsat .msat unit = .ok totalSpent ∧
      response = ⟨.paymentHash answer.paymentHash, answer.status.toMintState, totalSpent, unit⟩ := by
  unfold makePayment at h
  cases hcheck : checkOutgoingUnpaided
      (checkOutgoingPayment listpays (.paymentHash options.bolt11.paymentHash)) with
  | error e =>
      rw [hcheck] at h
      cases h
  | ok _ =>
      rw [hcheck] at h
      change (match pay (payRequest options) with
        | none => Except.error PaymentError.other
        | some answer => paymentResponse unit answer) = .ok response at h
      split at h
      next => cases h
      next answer hanswer =>
        unfold paymentResponse at h
        split at h
        next totalSpent hspent => exact ⟨answer, totalSpent, hanswer, hspent, (Except.ok.inj h).symm⟩
        next => cases h

/-! ## Incoming payments -/

/-- An invoice of the node, with its offer if it belongs to one. -/
structure Invoice where
  paymentHash : BitVec 256
  paid : Bool
  payIndex : Option Nat
  amountMsat : Option Amount
  amountReceivedMsat : Option Amount
  offer : Bool
  localOfferId : Option String
deriving DecidableEq, Repr

/-- The amount of the invoice that a quote asks for. -/
def invoiceAmount (amount : Amount) (unit : CurrencyUnit) : Outcome Error Amount :=
  toUnit amount unit .msat

/-- The payment of `Cln::check_incoming_payment_status` for an invoice, of the amount that it asks
for. -/
def statusPayment (identifier : PaymentIdentifier) (invoice : Invoice) :
    Option WaitPaymentResponse :=
  if invoice.paid then
    invoice.amountMsat.map fun amount =>
      ⟨identifier, amount, .msat, paymentHashText invoice.paymentHash⟩
  else none

/-- `Cln::check_incoming_payment_status`; the node has selected the invoices. -/
def checkIncomingPaymentStatus (identifier : PaymentIdentifier) (invoices : List Invoice) :
    List WaitPaymentResponse :=
  invoices.filterMap (statusPayment identifier)

/-- The name under which the stream reports an invoice; for an offer the node is asked again, and
the invoice is skipped when that fails. -/
def streamIdentifier (invoice : Invoice) (fetched : Option (Option Invoice)) :
    Option PaymentIdentifier :=
  if invoice.offer then
    match fetched with
    | some (some details) => details.localOfferId.map PaymentIdentifier.offerId
    | _ => none
  else some (.paymentHash invoice.paymentHash)

/-- The payment of `Cln::wait_payment_event` for a paid invoice, of the amount that was received. -/
def streamPayment (invoice : Invoice) (fetched : Option (Option Invoice)) :
    Option WaitPaymentResponse := do
  let amount ← invoice.amountReceivedMsat
  let identifier ← streamIdentifier invoice fetched
  pure ⟨identifier, amount, .msat, paymentHashText invoice.paymentHash⟩

end Cln

end Cdk
