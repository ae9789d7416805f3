import Cdk.Mint.Melt

/-!
# Payments of invoices

What the mint and its backends exchange about an invoice: the options of a
payment, the quote for it and the reserve for its fee. The relative part of the
reserve is a product of floating-point numbers, and is a parameter.
-/

namespace Cdk

open Lib

structure Bolt11Invoice where
  text : String
  paymentHash : BitVec 256
  amountMilliSatoshis : Option Amount
deriving DecidableEq, Repr

/-- The request of a melt quote for an invoice. -/
def Bolt11Invoice.request (invoice : Bolt11Invoice) : MeltPaymentRequest :=
  ⟨false, invoice.text, invoice.amountMilliSatoshis.map fun amount => (.msat, amount)⟩

structure Bolt11OutgoingPaymentOptions where
  bolt11 : Bolt11Invoice
  maxFeeAmount : Option Amount
  meltOptions : Option MeltOptions
deriving DecidableEq, Repr

structure PaymentQuoteResponse where
  requestLookupId : Option PaymentIdentifier
  amount : Amount
  fee : Amount
  unit : CurrencyUnit
deriving DecidableEq, Repr

inductive PaymentQuoteError where
  | amountMismatch
  | unknownInvoiceAmount
  | amount (error : Error)
deriving DecidableEq, Repr

structure FeeReserve where
  relativeFeeReserve : Amount → Amount
  minFeeReserve : Amount

/-- The larger one of the relative and the absolute reserve. -/
def FeeReserve.fee (reserve : FeeReserve) (amount : Amount) : Amount :=
  if reserve.relativeFeeReserve amount ≤ reserve.minFeeReserve then reserve.minFeeReserve
  else reserve.relativeFeeReserve amount

/-- The quote of both backends for an amount in millisatoshi. -/
def quoteMsat (reserve : FeeReserve) (unit : CurrencyUnit) (invoice : Bolt11Invoice)
    (amountMsat : Amount) : Outcome PaymentQuoteError PaymentQuoteResponse := do
  let amount ← (toUnit amountMsat .msat unit).mapErr PaymentQuoteError.amount
  .ok ⟨some (.paymentHash invoice.paymentHash), amount, reserve.fee amount, unit⟩

/-- The options that a melt quote is paid with. -/
def MeltQuote.outgoing (quote : MeltQuote) (invoice : Bolt11Invoice) :
    Bolt11OutgoingPaymentOptions :=
  ⟨invoice, some quote.feeReserve, quote.options⟩

/-- `Cln::check_outgoing_unpaided`: a backend pays an invoice only when its node has not, and LND
makes the same check. -/
def checkOutgoingUnpaided (check : Option MakePaymentResponse) : Except PaymentError Unit :=
  match check with
  | none => .error .other
  | some response =>
      match response.status with
      | .paid => .error .invoiceAlreadyPaid
      | .pending => .error .other
      | _ => .ok ()

/-- The name of a payment in the hexadecimal digits of its hash. -/
def paymentHashText (hash : BitVec 256) : String := hexDigits 64 hash.toNat

/-! ## Conversions -/

/-- The millisatoshi in one unit of a quote. -/
def msatPerUnit : CurrencyUnit → Nat
  | .sat => 1000
  | _ => 1

/-- An amount in millisatoshi is rounded down to whole units. -/
theorem toUnit_of_msat {unit : CurrencyUnit} (hunit : unit = .sat ∨ unit = .msat)
    {msat amount : Amount} :
    toUnit msat .msat unit = .ok amount ↔ amount.toNat = msat.toNat / msatPerUnit unit := by
  rcases hunit with rfl | rfl
  · simp [toUnit, msatPerUnit, Amount.ofNat?_eq_some]
  · simp only [toUnit, msatPerUnit, Outcome.ok.injEq, Nat.div_one]
    exact ⟨fun h => by rw [h], fun h => Amount.ext_toNat h.symm⟩

theorem toUnit_to_msat {unit : CurrencyUnit} (hunit : unit = .sat ∨ unit = .msat)
    {amount msat : Amount} :
    toUnit amount unit .msat = .ok msat ↔ msat.toNat = amount.toNat * msatPerUnit unit := by
  rcases hunit with rfl | rfl
  · simp [toUnit, msatPerUnit, Amount.ofNat?_eq_some]
  · simp only [toUnit, msatPerUnit, Outcome.ok.injEq, Nat.mul_one]
    exact ⟨fun h => by rw [h], fun h => Amount.ext_toNat h.symm⟩

theorem msatPerUnit_pos (unit : CurrencyUnit) : 0 < msatPerUnit unit := by
  unfold msatPerUnit
  split <;> decide

/-- A conversion to millisatoshi and back changes nothing. -/
theorem toUnit_msat_back {unit : CurrencyUnit} (hunit : unit = .sat ∨ unit = .msat)
    {amount msat : Amount} (h : toUnit amount unit .msat = .ok msat) :
    toUnit msat .msat unit = .ok amount := by
  rw [toUnit_to_msat hunit] at h
  rw [toUnit_of_msat hunit, h, Nat.mul_div_cancel _ (msatPerUnit_pos unit)]

end Cdk
