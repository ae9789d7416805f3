import Cdk.Backends.Bolt11

/-!
# The LND backend

The quotes and the payments of the backend for an LND node. Its amounts are
signed numbers of 64 bits, its fee limits are in satoshis and its answers are
rounded down to satoshis.
-/

namespace Cdk

open Lib

namespace Lnd

/-- The conversion of an amount to a signed number of 64 bits. -/
def toI64 (amount : Amount) : Int := (BitVec.ofNat 64 amount.toNat).toInt

/-- The conversion of a signed number of 64 bits to an amount. -/
def ofI64 (n : Int) : Amount := ⟨(BitVec.ofInt 64 n).toNat, (BitVec.ofInt 64 n).isLt⟩

theorem ofI64_tdiv {n : Nat} (h : n < 2 ^ 63) :
    (ofI64 ((n : Int).tdiv 1000)).toNat = n / 1000 := by
  have hcast : (n : Int).tdiv 1000 = ((n / 1000 : Nat) : Int) := (Int.ofNat_tdiv n 1000).symm
  rw [hcast]
  simp only [ofI64, BitVec.toNat_ofInt]
  omega

/-- `Lnd::get_payment_quote` of an invoice. -/
def getPaymentQuote (reserve : FeeReserve) (unit : CurrencyUnit)
    (options : Bolt11OutgoingPaymentOptions) : Outcome PaymentQuoteError PaymentQuoteResponse := do
  let amountMsat ← match options.meltOptions with
    | some meltOptions => .ok meltOptions.amountMsat
    | none => .ofOption .unknownInvoiceAmount options.bolt11.amountMilliSatoshis
  quoteMsat reserve unit options.bolt11 amountMsat

/-- What the node is asked to pay; an amount of zero stands for the one of the invoice. -/
structure SendRequest where
  paymentRequest : Bolt11Invoice
  feeLimit : Option Int
  amtMsat : Int
deriving DecidableEq, Repr

/-- The total of the route that has been paid, if there is one. -/
structure SendResponse where
  totalAmtMsat : Option Int
deriving DecidableEq, Repr

def sendRequest (options : Bolt11OutgoingPaymentOptions) : SendRequest where
  paymentRequest := options.bolt11
  feeLimit := options.maxFeeAmount.map toI64
  amtMsat := toI64 ((options.meltOptions.map MeltOptions.amountMsat).getD .zero)

/-- The answer to a payment that is not in parts. -/
def sendPayment (hash : BitVec 256) (response : SendResponse) : MakePaymentResponse :=
  let totalAmount := ofI64 ((response.totalAmtMsat.map fun total => total.tdiv 1000).getD 0)
  ⟨.paymentHash hash, if totalAmount = .zero then .unpaid else .paid, totalAmount, .sat⟩

/-- What the node is asked to route for a payment in parts. -/
structure QueryRoutesRequest where
  amtMsat : Int
  feeLimit : Option Int
deriving DecidableEq, Repr

def queryRoutes (amount : Amount) (options : Bolt11OutgoingPaymentOptions) : QueryRoutesRequest :=
  ⟨toI64 amount, options.maxFeeAmount.map toI64⟩

/-- One attempt of a payment in parts: the code of its failure, its status and its route. -/
structure HtlcAttempt where
  failure : Option Int
  status : Int
  totalAmtMsat : Option Int
deriving DecidableEq, Repr

/-- The answer to an attempt that is not repeated. -/
def attemptResponse (hash : BitVec 256) (attempt : HtlcAttempt) : MakePaymentResponse :=
  let status : MeltQuoteState := match attempt.status with
    | 0 => .pending
    | 1 => .paid
    | 2 => .unpaid
    | _ => .unknown
  ⟨.paymentHash hash, status,
    ofI64 ((attempt.totalAmtMsat.map fun total => total.tdiv 1000).getD 0), .sat⟩

/-- The attempts of a payment in parts, repeated while the route has failed. A call to the node
that fails has no answer. -/
def sendParts (hash : BitVec 256) (send : Nat → Option HtlcAttempt) :
    (retries : Nat) → (attempt : Nat) → Except PaymentError MakePaymentResponse
  | 0, _ => .error .other
  | retries + 1, attempt =>
      match send attempt with
      | none => .error .other
      | some result =>
          if result.failure = some 15 then sendParts hash send retries (attempt + 1)
          else .ok (attemptResponse hash result)

/-- `Lnd::MAX_ROUTE_RETRIES`. -/
def maxRouteRetries : Nat := 50

/-- A payment in parts, or the whole payment of an invoice. -/
def pay (send : SendRequest → Option SendResponse)
    (sendToRoute : QueryRoutesRequest → Nat → Option HtlcAttempt)
    (options : Bolt11OutgoingPaymentOptions) : Except PaymentError MakePaymentResponse :=
  match options.meltOptions, options.bolt11.amountMilliSatoshis with
  | some (.mpp _), none => .error .other
  | some (.mpp amount), some _ =>
      sendParts options.bolt11.paymentHash (sendToRoute (queryRoutes amount options))
        maxRouteRetries 0
  | _, _ =>
      match send (sendRequest options) with
      | none => .error .other
      | some response => .ok (sendPayment options.bolt11.paymentHash response)

/-- The states of payments at the node. -/
inductive PaymentStatus where
  | unknown
  | inFlight
  | succeeded
  | failed
  | initiated
deriving DecidableEq, Repr

/-- An update of a payment that the node tracks. -/
structure Payment where
  status : PaymentStatus
  valueSat : Int
  feeSat : Int
deriving DecidableEq, Repr

/-- The answer of the node to `track_payment_v2`; an update that is an error has no payment. -/
inductive Tracked where
  | notFound
  | error
  | updates (payments : List (Option Payment))
deriving DecidableEq, Repr

/-- The first update that is not in flight. -/
def lastUpdate : List (Option Payment) → Option Payment
  | [] => none
  | none :: _ => none
  | some payment :: payments =>
      match payment.status with
      | .inFlight => lastUpdate payments
      | .initiated => lastUpdate payments
      | _ => some payment

/-- The answer to an update that is not in flight. The sum of a paid one must fit in 64 bits, and
the settings of the backend are in millisatoshi. -/
def updateResponse (identifier : PaymentIdentifier) (payment : Payment) :
    Option MakePaymentResponse :=
  match payment.status with
  | .succeeded =>
      let sum := payment.valueSat + payment.feeSat
      if -2 ^ 63 ≤ sum ∧ sum < 2 ^ 63 then some ⟨identifier, .paid, ofI64 sum, .sat⟩ else none
  | .failed => some ⟨identifier, .failed, .zero, .msat⟩
  | _ => some ⟨identifier, .unknown, .zero, .msat⟩

/-- `Lnd::check_outgoing_payment`. An identifier that is not in hexadecimal digits cannot be
tracked. -/
def checkOutgoingPayment (track : PaymentIdentifier → Tracked)
    (identifier : PaymentIdentifier) : Option MakePaymentResponse :=
  match track identifier with
  | .notFound => some ⟨identifier, .unknown, .zero, .msat⟩
  | .error => none
  | .updates payments => (lastUpdate payments).bind (updateResponse identifier)

/-- `Lnd::make_payment` of an invoice, with the answers of the node to the check, to the payment
and to the attempts of a payment in parts. -/
def makePayment (check : Option MakePaymentResponse) (send : SendRequest → Option SendResponse)
    (sendToRoute : QueryRoutesRequest → Nat → Option HtlcAttempt)
    (options : Bolt11OutgoingPaymentOptions) : Except PaymentError MakePaymentResponse := do
  checkOutgoingUnpaided check
  pay send sendToRoute options

section Payments

variable {send : SendRequest → Option SendResponse}
  {sendToRoute : QueryRoutesRequest → Nat → Option HtlcAttempt}
  {options : Bolt11OutgoingPaymentOptions} {response : MakePaymentResponse}

theorem makePayment_ok {check : Option MakePaymentResponse}
    (h : makePayment check send sendToRoute options = .ok response) :
    pay send sendToRoute options = .ok response := by
  unfold makePayment at h
  cases hcheck : checkOutgoingUnpaided check with
  | error e =>
      rw [hcheck] at h
      cases h
  | ok _ =>
      rw [hcheck] at h
      exact h

/-- A whole payment is answered by the total of its route. -/
theorem pay_whole
    (hwhole : ∀ amount, options.meltOptions ≠ some (.mpp amount))
    {total : Option Int} (hpaid : send (sendRequest options) = some ⟨total⟩) :
    pay send sendToRoute options = .ok (sendPayment options.bolt11.paymentHash ⟨total⟩) := by
  unfold pay
  split
  next hoptions _ => exact absurd hoptions (hwhole _)
  next hoptions _ => exact absurd hoptions (hwhole _)
  next => rw [hpaid]

end Payments

end Lnd

end Cdk
