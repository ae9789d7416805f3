import Cdk.Backends.InternalSettlement
import Cdk.Backends.Lnd

/-!
# What a melt costs the mint

The mint charges the inputs of a melt less the change, and pays what its node
has sent. CLN reports the total in the unit of the quote, rounded down. LND
reports satoshis, rounded down, for every unit, and takes the reserve of every
unit as a limit in satoshis.
-/

namespace Cdk

open Lib

/-! ## Payments that settle -/

/-- The node sends the part, the requested or the invoiced amount, and a fee within the limit. -/
def Cln.Sends (request : Cln.PayRequest) (sent : Nat) : Prop :=
  ∃ amount fee, (request.partialMsat <|> request.amountMsat <|>
      request.bolt11.amountMilliSatoshis) = some amount ∧
    (∀ limit ∈ request.maxfee, fee ≤ limit.toNat) ∧ sent = amount.toNat + fee

/-- A fee limit of LND is in satoshis. -/
def Lnd.WithinLimit (feeLimit : Option Int) (fee : Nat) : Prop :=
  ∀ limit ∈ feeLimit, (fee : Int) ≤ limit * 1000

/-- The node sends the requested amount, or the invoiced one for a request of zero, and a fee within
the limit. -/
def Lnd.Sends (request : Lnd.SendRequest) (sent : Nat) : Prop :=
  ∃ (amount : Int) (fee : Nat),
    (if request.amtMsat = 0 then
      request.paymentRequest.amountMilliSatoshis.map (fun a => (a.toNat : Int)) = some amount
    else amount = request.amtMsat) ∧
    Lnd.WithinLimit request.feeLimit fee ∧ (sent : Int) = amount + fee

def Lnd.SendsPart (request : Lnd.QueryRoutesRequest) (sent : Nat) : Prop :=
  ∃ fee : Nat, Lnd.WithinLimit request.feeLimit fee ∧ (sent : Int) = request.amtMsat + fee

inductive Bolt11Backend where
  | cln
  | lnd
deriving DecidableEq, Repr

def Bolt11Backend.getPaymentQuote : Bolt11Backend → FeeReserve → CurrencyUnit →
    Bolt11OutgoingPaymentOptions → Outcome PaymentQuoteError PaymentQuoteResponse
  | .cln => Cln.getPaymentQuote
  | .lnd => Lnd.getPaymentQuote

/-- A payment that has settled at the node with a total in millisatoshi, and the answer of the
backend to it. -/
inductive Bolt11Backend.Settles (unit : CurrencyUnit) (options : Bolt11OutgoingPaymentOptions)
    (sent : Amount) (response : MakePaymentResponse) : Bolt11Backend → Prop where
  | cln (listpays : BitVec 256 → Option (List Cln.PayRecord))
      (pay : Cln.PayRequest → Option Cln.PayResponse) (hash : BitVec 256)
      (hpaid : pay (Cln.payRequest options) = some ⟨hash, .complete, sent⟩)
      (hsends : Cln.Sends (Cln.payRequest options) sent.toNat)
      (hmake : Cln.makePayment listpays pay unit options = .ok response) :
      Settles unit options sent response .cln
  | lnd (check : Option MakePaymentResponse) (send : Lnd.SendRequest → Option Lnd.SendResponse)
      (sendToRoute : Lnd.QueryRoutesRequest → Nat → Option Lnd.HtlcAttempt)
      (hwhole : ∀ amount, options.meltOptions ≠ some (.mpp amount))
      (hpaid : send (Lnd.sendRequest options) = some ⟨some (sent.toNat : Int)⟩)
      (hfits : sent.toNat < 2 ^ 63) (hsends : Lnd.Sends (Lnd.sendRequest options) sent.toNat)
      (hmake : Lnd.makePayment check send sendToRoute options = .ok response) :
      Settles unit options sent response .lnd
  | lndParts (check : Option MakePaymentResponse)
      (send : Lnd.SendRequest → Option Lnd.SendResponse)
      (sendToRoute : Lnd.QueryRoutesRequest → Nat → Option Lnd.HtlcAttempt) (amount : Amount)
      (attempt : Lnd.HtlcAttempt) (hparts : options.meltOptions = some (.mpp amount))
      (hpaid : attempt.status = 1 ∧ attempt.totalAmtMsat = some (sent.toNat : Int))
      (hfits : sent.toNat < 2 ^ 63)
      (hsends : Lnd.SendsPart (Lnd.queryRoutes amount options) sent.toNat)
      (hmake : Lnd.makePayment check send sendToRoute options = .ok response)
      (hlast : response = Lnd.attemptResponse options.bolt11.paymentHash attempt) :
      Settles unit options sent response .lnd

/-! ## What the mint charges -/

/-- The change that is signed for a melt with its inputs and outputs. -/
def issuedChange (keysets : Keysets) (info : Db.MeltRequestInfo) (spent : Amount) :
    Outcome Error (List BlindedMessage) :=
  if spent < info.inputsAmount ∧ info.changeOutputs ≠ [] then changeMessages keysets info spent
  else .ok []

/-- The inputs of a request cover its quote. -/
def Accepts (quote : MeltQuote) (info : Db.MeltRequestInfo) : Prop :=
  quote.amount.toNat + quote.feeReserve.toNat + info.inputsFee.toNat ≤ info.inputsAmount.toNat

/-- The inputs of a melt without its change are worth what was sent. A melt whose payment is not
paid for the mint charges nothing. -/
def Covers (keysets : Keysets) (info : Db.MeltRequestInfo) (quote : MeltQuote)
    (response : MakePaymentResponse) (sent : Nat) : Prop :=
  match response.status with
  | .paid => ∀ messages, issuedChange keysets info (amountSpent quote response) = .ok messages →
      sent ≤ (info.inputsAmount.toNat - Amount.total (messages.map BlindedMessage.amount)) *
        msatPerUnit quote.unit
  | _ => sent = 0

/-- The total that was sent is lost neither by rounding it down nor beyond the reserve. -/
def CostCovered (backend : Bolt11Backend) (quote : MeltQuote) (sent : Nat) : Prop :=
  2 ^ 64 ≤ quote.amount.toNat + quote.feeReserve.toNat ∨
    match backend, quote.unit with
    | .cln, .msat => True
    | .cln, _ => sent % 1000 = 0
    | .lnd, unit => sent % 1000 = 0 ∧
        sent ≤ (quote.amount.toNat + quote.feeReserve.toNat) * msatPerUnit unit

section Charge

variable {keysets : Keysets} {info : Db.MeltRequestInfo} {quote : MeltQuote}
  {response : MakePaymentResponse} {sent : Nat} {spent : Amount} {messages : List BlindedMessage}

/-- Change leaves the mint with what was spent, and without change it keeps all inputs. -/
theorem issuedChange_cases (h : issuedChange keysets info spent = .ok messages) :
    messages = [] ∨
      Amount.total (messages.map BlindedMessage.amount) + spent.toNat ≤ info.inputsAmount.toNat := by
  unfold issuedChange at h
  split at h
  · exact .inr (changeMessages_total h)
  · exact .inl (Outcome.ok.inj h).symm

/-- A total that is spent in full and within the reserve is covered by every accepted request. -/
theorem sent_le_charge {rate : Nat} (haccepts : Accepts quote info)
    (h : issuedChange keysets info spent = .ok messages) (hspent : sent ≤ spent.toNat * rate)
    (hreserve : sent ≤ (quote.amount.toNat + quote.feeReserve.toNat) * rate) :
    sent ≤ (info.inputsAmount.toNat - Amount.total (messages.map BlindedMessage.amount)) * rate := by
  unfold Accepts at haccepts
  rcases issuedChange_cases h with rfl | htotal
  · refine hreserve.trans (Nat.mul_le_mul_right rate ?_)
    simp only [List.map_nil, Amount.total_nil]
    omega
  · refine hspent.trans (Nat.mul_le_mul_right rate ?_)
    omega

/-- The change of a request with one output, signed by a keyset that has just the right key. -/
theorem changeMessages_exact {inputs spent rest : Amount} (hrest : rest.toNat + spent.toNat = inputs.toNat)
    (hpos : rest.toNat ≠ 0) (unit : CurrencyUnit) :
    changeMessages [⟨.v1 1, unit, true, 0, [rest]⟩] ⟨inputs, .zero, [⟨.zero, .v1 1, ⟨false, 0⟩⟩]⟩ spent =
      .ok [⟨rest, .v1 1, ⟨false, 0⟩⟩] := by
  have hsub : inputs.sub spent = (.ok rest : Outcome Error Amount) := by
    rw [Amount.sub, Outcome.expect_eq_ok, Amount.checkedSub_eq_some]
    exact hrest
  have hzero : rest.sub .zero = (.ok rest : Outcome Error Amount) := by
    rw [Amount.sub, Outcome.expect_eq_ok, Amount.checkedSub_eq_some]
    rfl
  have hsplit : rest.split [rest] = (.ok [rest] : Outcome Error (List Amount)) := by
    simp [Amount.split, Amount.splitStep, hpos]
  simp [changeMessages, changeAmounts, hsub, hzero, changeDenominations, hsplit]

/-- What every accepted request must leave to the mint. -/
theorem covers_bounds (hfits : quote.amount.toNat + quote.feeReserve.toNat < 2 ^ 64)
    (hpaid : response.status = .paid)
    (h : ∀ keysets info, Accepts quote info → Covers keysets info quote response sent) :
    sent ≤ (quote.amount.toNat + quote.feeReserve.toNat) * msatPerUnit quote.unit ∧
      sent ≤ (amountSpent quote response).toNat * msatPerUnit quote.unit := by
  let inputs : Amount := ⟨quote.amount.toNat + quote.feeReserve.toNat, hfits⟩
  have hreserve : sent ≤ inputs.toNat * msatPerUnit quote.unit := by
    have hcovers := h [] ⟨inputs, .zero, []⟩ (Nat.le_refl _)
    simp only [Covers, hpaid] at hcovers
    simpa using hcovers [] (by simp [issuedChange])
  refine ⟨hreserve, ?_⟩
  by_cases hspent : inputs.toNat ≤ (amountSpent quote response).toNat
  · exact hreserve.trans (Nat.mul_le_mul_right _ hspent)
  · -- all that the payment leaves is given back as change
    let rest : Amount := ⟨inputs.toNat - (amountSpent quote response).toNat, by
      have := inputs.isLt
      omega⟩
    have hrest : rest.toNat + (amountSpent quote response).toNat = inputs.toNat := by
      simp only [rest]
      omega
    have hpos : rest.toNat ≠ 0 := by omega
    have hcovers := h [⟨.v1 1, quote.unit, true, 0, [rest]⟩]
      ⟨inputs, .zero, [⟨.zero, .v1 1, ⟨false, 0⟩⟩]⟩ (Nat.le_refl _)
    simp only [Covers, hpaid] at hcovers
    have hlt : amountSpent quote response < inputs := Nat.lt_of_not_le hspent
    have hissued := hcovers _ (by
      rw [issuedChange, if_pos ⟨hlt, by simp⟩]
      exact changeMessages_exact hrest hpos quote.unit)
    refine hissued.trans (Nat.mul_le_mul_right _ ?_)
    simp only [List.map_cons, List.map_nil, Amount.total_cons, Amount.total_nil]
    omega

/-- Every accepted request covers a paid total exactly when it is spent in full and within the
reserve. -/
theorem covers_iff_of_paid (hfits : quote.amount.toNat + quote.feeReserve.toNat < 2 ^ 64)
    (hpaid : response.status = .paid) :
    (∀ keysets info, Accepts quote info → Covers keysets info quote response sent) ↔
      sent ≤ (amountSpent quote response).toNat * msatPerUnit quote.unit ∧
        sent ≤ (quote.amount.toNat + quote.feeReserve.toNat) * msatPerUnit quote.unit := by
  constructor
  · intro h
    obtain ⟨hreserve, hspent⟩ := covers_bounds hfits hpaid h
    exact ⟨hspent, hreserve⟩
  · rintro ⟨hspent, hreserve⟩ keysets info haccepts
    simp only [Covers, hpaid]
    exact fun messages hmessages => sent_le_charge haccepts hmessages hspent hreserve

end Charge

/-! ## The answers of the backends -/

section Answers

variable {reserve : FeeReserve} {unit : CurrencyUnit} {options : Bolt11OutgoingPaymentOptions}
  {payment : PaymentQuoteResponse} {response : MakePaymentResponse} {quote : MeltQuote}
  {sent : Amount}

theorem toUnit_self {amount : Amount} (hunit : unit = .sat ∨ unit = .msat) :
    toUnit amount unit unit = .ok amount := by
  rcases hunit with rfl | rfl <;> rfl

/-- CLN reports the total in the unit of the quote. -/
theorem Cln.spent_eq {listpays : BitVec 256 → Option (List PayRecord)}
    {pay : PayRequest → Option PayResponse} {hash : BitVec 256}
    (hunit : quote.unit = .sat ∨ quote.unit = .msat)
    (hpaid : pay (payRequest options) = some ⟨hash, .complete, sent⟩)
    (hmake : makePayment listpays pay quote.unit options = .ok response) :
    response.status = .paid ∧
      (amountSpent quote response).toNat = sent.toNat / msatPerUnit quote.unit := by
  obtain ⟨answer, totalSpent, hanswer, hspent, rfl⟩ := makePayment_ok hmake
  obtain rfl : answer = ⟨hash, .complete, sent⟩ := Option.some.inj (hanswer.symm.trans hpaid)
  refine ⟨rfl, ?_⟩
  rw [toUnit_of_msat hunit] at hspent
  simp only [amountSpent, toUnit_self hunit, Outcome.getD]
  exact hspent

/-- The node of CLN sends at most the quoted amount before it is rounded, and the reserve in
millisatoshi. -/
theorem Cln.sent_le {invoice : Bolt11Invoice} {meltOptions : Option MeltOptions}
    (hunit : unit = .sat ∨ unit = .msat)
    (hquote : getPaymentQuote reserve unit ⟨invoice, none, meltOptions⟩ = .ok payment)
    (hsends : Sends (payRequest ⟨invoice, some payment.fee, meltOptions⟩) sent.toNat) :
    ∃ msat : Amount, payment.amount.toNat = msat.toNat / msatPerUnit unit ∧
      sent.toNat ≤ msat.toNat + payment.fee.toNat := by
  simp only [getPaymentQuote, Outcome.bind_eq_ok] at hquote
  obtain ⟨msat, hmsat, hquote⟩ := hquote
  obtain ⟨hamount, -⟩ := quoteMsat_ok hquote
  obtain ⟨amount, fee, hamountSent, hfee, hsent⟩ := hsends
  have hfee' : fee ≤ payment.fee.toNat := hfee payment.fee rfl
  have hsame : amount = msat := by
    cases meltOptions with
    | none =>
        simp only [quotedMsat, Outcome.ofOption_eq_ok] at hmsat
        exact Option.some.inj (hamountSent.symm.trans hmsat)
    | some o =>
        cases o with
        | mpp x =>
            cases hmsat
            exact (Option.some.inj hamountSent).symm
        | amountless x =>
            have hx : msat = x := by
              simp only [quotedMsat] at hmsat
              split at hmsat
              · split at hmsat
                · cases hmsat
                · exact (Outcome.ok.inj hmsat).symm
              · exact (Outcome.ok.inj hmsat).symm
            rw [hx]
            exact (Option.some.inj hamountSent).symm
  refine ⟨msat, (toUnit_of_msat hunit).mp hamount, ?_⟩
  rw [hsent, hsame]
  omega

/-- LND reports satoshis, whatever the unit of the quote. -/
theorem Lnd.spent_eq (hunit : quote.unit = .sat ∨ quote.unit = .msat)
    (htotal : response.totalSpent.toNat = sent.toNat / 1000) (hsat : response.unit = .sat) :
    (amountSpent quote response).toNat * msatPerUnit quote.unit = sent.toNat / 1000 * 1000 := by
  unfold amountSpent
  rcases hunit with hunit | hunit
  · simp [hsat, hunit, toUnit, Outcome.getD, msatPerUnit, htotal]
  · have hlt : response.totalSpent.toNat * 1000 < 2 ^ 64 := by
      have := sent.isLt
      omega
    let msat : Amount := ⟨response.totalSpent.toNat * 1000, hlt⟩
    have hmsat : toUnit response.totalSpent .sat .msat = .ok msat :=
      (toUnit_to_msat (.inl rfl)).mpr rfl
    rw [hsat, hunit, hmsat]
    simp [Outcome.getD, msatPerUnit, msat, htotal]

end Answers

/-! ## When the cost is covered -/

section Covered

variable {reserve : FeeReserve} {payment : PaymentQuoteResponse} {response : MakePaymentResponse}
  {quote : MeltQuote} {invoice : Bolt11Invoice} {sent : Amount}

/-- A melt quote as a backend has quoted it. -/
structure MeltQuote.From (quote : MeltQuote) (invoice : Bolt11Invoice)
    (payment : PaymentQuoteResponse) : Prop where
  amount : quote.amount = payment.amount
  feeReserve : quote.feeReserve = payment.fee
  request : quote.request = invoice.request

theorem costCovered_lnd {total : Nat}
    (hfits : quote.amount.toNat + quote.feeReserve.toNat < 2 ^ 64) :
    CostCovered .lnd quote total ↔ total % 1000 = 0 ∧
      total ≤ (quote.amount.toNat + quote.feeReserve.toNat) * msatPerUnit quote.unit :=
  or_iff_right (Nat.not_le.mpr hfits)

/-- LND loses what it rounds away and what exceeds the reserve. -/
theorem Lnd.covers_iff (hfits : quote.amount.toNat + quote.feeReserve.toNat < 2 ^ 64)
    (hunit : quote.unit = .sat ∨ quote.unit = .msat)
    (htotal : response.totalSpent.toNat = sent.toNat / 1000) (hsat : response.unit = .sat)
    (hpaid : response.status = .paid) :
    (∀ keysets info, Accepts quote info → Covers keysets info quote response sent.toNat) ↔
      sent.toNat % 1000 = 0 ∧
        sent.toNat ≤ (quote.amount.toNat + quote.feeReserve.toNat) * msatPerUnit quote.unit := by
  rw [covers_iff_of_paid hfits hpaid, Lnd.spent_eq hunit htotal hsat]
  apply and_congr_left'
  omega

theorem Cln.covers_iff (hfits : quote.amount.toNat + quote.feeReserve.toNat < 2 ^ 64)
    (hunit : quote.unit = .sat ∨ quote.unit = .msat) (hfrom : quote.From invoice payment)
    (hquote : getPaymentQuote reserve quote.unit ⟨invoice, none, quote.options⟩ = .ok payment)
    (hsends : Sends (payRequest (quote.outgoing invoice)) sent.toNat)
    (hspent : (amountSpent quote response).toNat = sent.toNat / msatPerUnit quote.unit)
    (hpaid : response.status = .paid) :
    (∀ keysets info, Accepts quote info → Covers keysets info quote response sent.toNat) ↔
      CostCovered .cln quote sent.toNat := by
  have hsends' : Sends (payRequest ⟨invoice, some payment.fee, quote.options⟩) sent.toNat := by
    rw [← hfrom.feeReserve]
    exact hsends
  obtain ⟨msat, hamount, hle⟩ := sent_le hunit hquote hsends'
  rw [covers_iff_of_paid hfits hpaid, hspent, hfrom.amount, hfrom.feeReserve]
  rw [hfrom.amount, hfrom.feeReserve] at hfits
  unfold CostCovered
  rw [hfrom.amount, hfrom.feeReserve]
  rcases hunit with hunit | hunit
  · simp only [hunit, msatPerUnit] at hamount ⊢
    omega
  · simp only [hunit, msatPerUnit, Nat.div_one, Nat.mul_one, or_true, iff_true] at hamount ⊢
    omega

/-- The total of a route of LND; below one satoshi it is taken for a payment that was not made. -/
theorem Lnd.covers_route_iff (hfits : quote.amount.toNat + quote.feeReserve.toNat < 2 ^ 64)
    (hunit : quote.unit = .sat ∨ quote.unit = .msat) {hash : BitVec 256}
    (hsent : sent.toNat < 2 ^ 63) :
    (∀ keysets info, Accepts quote info →
      Covers keysets info quote (sendPayment hash ⟨some (sent.toNat : Int)⟩) sent.toNat) ↔
      CostCovered .lnd quote sent.toNat := by
  rw [costCovered_lnd hfits]
  have htotal : (sendPayment hash ⟨some (sent.toNat : Int)⟩).totalSpent.toNat = sent.toNat / 1000 :=
    ofI64_tdiv hsent
  by_cases hzero : sent.toNat / 1000 = 0
  · have hstatus : (sendPayment hash ⟨some (sent.toNat : Int)⟩).status = .unpaid :=
      if_pos (Amount.ext_toNat (htotal.trans hzero))
    simp only [Covers, hstatus]
    constructor
    · intro h
      have hnothing := h [] ⟨⟨quote.amount.toNat + quote.feeReserve.toNat, hfits⟩, .zero, []⟩
        (Nat.le_refl _)
      simp [hnothing]
    · rintro ⟨hmod, -⟩ - - -
      omega
  · have hstatus : (sendPayment hash ⟨some (sent.toNat : Int)⟩).status = .paid := by
      refine if_neg fun h => hzero ?_
      rw [← htotal]
      exact congrArg Amount.toNat h
    exact Lnd.covers_iff hfits hunit htotal rfl hstatus

/-- The total of an attempt of LND that has succeeded. -/
theorem Lnd.covers_attempt_iff (hfits : quote.amount.toNat + quote.feeReserve.toNat < 2 ^ 64)
    (hunit : quote.unit = .sat ∨ quote.unit = .msat) {hash : BitVec 256} {attempt : HtlcAttempt}
    (hpaid : attempt.status = 1 ∧ attempt.totalAmtMsat = some (sent.toNat : Int))
    (hsent : sent.toNat < 2 ^ 63) :
    (∀ keysets info, Accepts quote info →
      Covers keysets info quote (attemptResponse hash attempt) sent.toNat) ↔
      CostCovered .lnd quote sent.toNat := by
  rw [costCovered_lnd hfits]
  have htotal : (attemptResponse hash attempt).totalSpent.toNat = sent.toNat / 1000 := by
    simp only [attemptResponse, hpaid.2]
    exact ofI64_tdiv hsent
  have hstatus : (attemptResponse hash attempt).status = .paid := by
    simp [attemptResponse, hpaid.1]
  exact Lnd.covers_iff hfits hunit htotal rfl hstatus

theorem Bolt11Backend.covers_iff (backend : Bolt11Backend)
    (hunit : quote.unit = .sat ∨ quote.unit = .msat) (hfrom : quote.From invoice payment)
    (hquote : backend.getPaymentQuote reserve quote.unit ⟨invoice, none, quote.options⟩ = .ok payment)
    (hsettles : backend.Settles quote.unit (quote.outgoing invoice) sent response) :
    (∀ keysets info, Accepts quote info → Covers keysets info quote response sent.toNat) ↔
      CostCovered backend quote sent.toNat := by
  by_cases hfits : quote.amount.toNat + quote.feeReserve.toNat < 2 ^ 64
  · cases hsettles with
    | cln listpays pay hash hpaid hsends hmake =>
        obtain ⟨hstatus, hspent⟩ := Cln.spent_eq hunit hpaid hmake
        exact Cln.covers_iff hfits hunit hfrom hquote hsends hspent hstatus
    | lnd check send sendToRoute hwhole hpaid hsent hsends hmake =>
        obtain rfl := Except.ok.inj
          ((Lnd.makePayment_ok hmake).symm.trans (Lnd.pay_whole hwhole hpaid))
        exact Lnd.covers_route_iff hfits hunit hsent
    | lndParts check send sendToRoute amount attempt hparts hpaid hsent hsends hmake hlast =>
        subst hlast
        exact Lnd.covers_attempt_iff hfits hunit hpaid hsent
  · constructor
    · exact fun _ => .inl (Nat.le_of_not_lt hfits)
    · intro _ keysets info haccepts
      -- no inputs cover an amount and a reserve beyond 64 bits
      have hlt := info.inputsAmount.isLt
      unfold Accepts at haccepts
      omega

end Covered

/-! ## Melts -/

section Melts

variable {env : Env} {keysets : Keysets} {now : Nat} {operationId : Uuid} {request : MeltRequest}
  {writer writer' : ProofWriter} {quote : MeltQuote} {response : MakePaymentResponse}
  {change : Option PendingChange} {db db' : Db}

/-- The check of `verify_melt_request` on the amounts. -/
theorem verifyMeltQuote_covers {input : Verification}
    (h : verifyMeltQuote env keysets input request db = .ok (quote, db')) :
    ∃ fee, getProofsFee keysets request.inputs = .ok fee ∧
      quote.amount.toNat + quote.feeReserve.toNat + fee.toNat ≤ input.amount.toNat := by
  simp only [verifyMeltQuote, Tx.bind_ok, Tx.mapErr_ok, Tx.ensure_ok, Tx.lift_ok, Tx.pure_ok,
    Amount.add, Outcome.expect_eq_ok, Amount.checkedAdd_eq_some, decide_eq_true_eq,
    Amount.le_def] at h
  obtain ⟨updated, _, -, _, _, -, _, _, -, fee, _, ⟨hfee, -⟩, reserved, _, ⟨hreserved, -⟩, required,
    _, ⟨hrequired, -⟩, _, _, ⟨hle, -⟩, _, _, -, _, _, -, rfl, -⟩ := h
  refine ⟨fee, hfee, ?_⟩
  omega

/-- The stored request of a melt that has been accepted. -/
theorem reserveMelt_row
    (h : reserveMelt env keysets now operationId request db = .ok ((writer, quote), db')) :
    ∃ row ∈ db'.meltRequests.rows, row.quoteId = quote.id ∧
      row.inputsAmount.toNat = Amount.total (request.inputs.map Proof.amount) ∧
      quote.amount.toNat + quote.feeReserve.toNat + row.inputsFee.toNat ≤ row.inputsAmount.toNat := by
  simp only [reserveMelt, Tx.bind_ok, guarded_ok, Tx.lift_ok, Tx.pure_ok, Prod.mk.injEq] at h
  obtain ⟨input, _, ⟨hinput, rfl⟩, _, added, -, _, checked, hquote, _, _, hrecord, ⟨-, rfl⟩, rfl⟩ := h
  obtain ⟨hid, -⟩ := verifyMeltQuote_ok hquote
  obtain ⟨fee, hfee, hcovers⟩ := verifyMeltQuote_covers hquote
  obtain ⟨htotal, -⟩ := verifyInputs_eq_ok hinput
  simp only [recordMeltRequest, Tx.bind_ok, Tx.lift_ok, Tx.mapErr_ok, Outcome.ofOption_eq_ok,
    hfee, Outcome.ok.injEq] at hrecord
  obtain ⟨_, _, ⟨rfl, rfl⟩, amount, _, ⟨hsum, rfl⟩, _, mid, hreq, hmsg⟩ := hrecord
  obtain ⟨requests, -, hrows, rfl⟩ := Db.addMeltRequest_ok hreq
  obtain ⟨messages, -, rfl⟩ := Db.addBlindedMessages_ok hmsg
  have hamount := Amount.trySum_eq_total hsum
  refine ⟨⟨request.quote, amount, fee⟩, ?_, hid.symm, hamount, ?_⟩
  · simp [hrows]
  · change _ + _ + fee.toNat ≤ amount.toNat
    omega

/-- The change that a payment leaves, by the stored request. -/
theorem payQuote_change {quoteId : QuoteId} {spent : Amount}
    (h : payQuote keysets quoteId spent db = .ok (change, db')) :
    ∃ row ∈ db.meltRequests.rows, row.quoteId = quoteId ∧ ∃ outputs messages,
      issuedChange keysets ⟨row.inputsAmount, row.inputsFee, outputs⟩ spent = .ok messages ∧
      promised change = Amount.total (messages.map BlindedMessage.amount) := by
  simp only [payQuote, Tx.bind_ok, Tx.mapErr_ok, Db.getMeltRequestAndBlindedMessages, Tx.read_ok,
    Tx.lift_ok, Outcome.ofOption_eq_ok, Tx.ite_ok, Db.anySigned, Tx.ensure_ok, Tx.pure_ok,
    Db.deleteMeltRequest, Tx.write_ok] at h
  obtain ⟨_, mid, hupd, found, _, ⟨hfound, rfl⟩, info, _, ⟨rfl, rfl⟩, h⟩ := h
  obtain ⟨q, hq, hid, hallowed, -, hmid⟩ := Db.updateMeltQuoteState_ok hupd
  rw [if_neg (by decide)] at hmid
  obtain ⟨row, hrow, hinfo⟩ := Option.map_eq_some_iff.mp hfound
  obtain ⟨hmem, hrid⟩ := Table.find?_eq_some.mp hrow
  rw [hmid] at hmem
  have hrow' : Db.MeltRequestInfo.mk row.inputsAmount row.inputsFee info.changeOutputs = info := by
    rw [← hinfo]
  obtain ⟨hcond, _, _, ⟨-, rfl⟩, _, _, ⟨-, rfl⟩, messages, _, ⟨hmsg, rfl⟩, rfl, -⟩ |
    ⟨hcond, _, _, rfl, rfl, -⟩ := h
  · refine ⟨row, hmem, hrid, info.changeOutputs, messages, ?_, rfl⟩
    rw [hrow', issuedChange, if_pos hcond]
    exact hmsg
  · refine ⟨row, hmem, hrid, info.changeOutputs, [], ?_, rfl⟩
    rw [hrow', issuedChange, if_neg hcond]

theorem settleExternal_change
    (h : settleExternal env keysets writer quote response db = .ok ((writer', change), db')) :
    ∃ row ∈ db.meltRequests.rows, row.quoteId = quote.id ∧ ∃ outputs messages,
      issuedChange keysets ⟨row.inputsAmount, row.inputsFee, outputs⟩
        (amountSpent quote response) = .ok messages ∧
      promised change = Amount.total (messages.map BlindedMessage.amount) := by
  have hprocess : ∀ {mid : Db}, mid.meltRequests = db.meltRequests →
      processMeltRequest env keysets writer quote.id (amountSpent quote response) mid =
        .ok ((writer', change), db') →
      ∃ row ∈ db.meltRequests.rows, row.quoteId = quote.id ∧ ∃ outputs messages,
        issuedChange keysets ⟨row.inputsAmount, row.inputsFee, outputs⟩
          (amountSpent quote response) = .ok messages ∧
        promised change = Amount.total (messages.map BlindedMessage.amount) := by
    intro mid hmid h
    simp only [processMeltRequest, Tx.bind_ok, guarded_ok, Tx.pure_ok, Prod.mk.injEq] at h
    obtain ⟨_, burnt, hburn, change, _, hpay, ⟨rfl, rfl⟩, rfl⟩ := h
    obtain ⟨ys, original, -, -, hupd, -⟩ := burnInputs_ok hburn
    obtain ⟨-, -, rfl⟩ := Db.updateProofsStates_ok hupd
    have hchange := payQuote_change hpay
    rw [← hmid]
    exact hchange
  simp only [settleExternal, Tx.bind_ok, Tx.ite_ok, guarded_ok, Tx.mapErr_ok] at h
  obtain ⟨-, _, named, hlookup, h⟩ | ⟨-, h⟩ := h
  · obtain ⟨-, hframe⟩ := Db.updateMeltQuoteRequestLookupId_ok hlookup
    exact hprocess (by rw [hframe]) h
  · exact hprocess rfl h

/-- A melt that is paid by the backend leaves the mint with the cost of its payment, where every
accepted request does. -/
theorem melt_covers {backends : Backends} {started : Db} {settling : Keysets} {sent : Nat}
    (hstart : startMelt env keysets backends now operationId request db =
      .ok ((writer, .external quote), started))
    (hsettle : settleExternal env settling writer quote response started =
      .ok ((writer', change), db'))
    (hpaid : response.status = .paid)
    (h : ∀ keysets info, Accepts quote info → Covers keysets info quote response sent) :
    sent ≤ (Amount.total (request.inputs.map Proof.amount) - promised change) *
      msatPerUnit quote.unit := by
  simp only [startMelt, Tx.bind_ok, guarded_ok] at hstart
  obtain ⟨⟨_, reservedQuote⟩, reserved, hreserve, internal, handled, hinternal, hrest⟩ := hstart
  obtain ⟨row, hrow, hrowId, hinputs, haccepted⟩ := reserveMelt_row hreserve
  rcases handleInternalMeltMint_ok hinternal with ⟨rfl, -, rfl⟩ | ⟨rfl, -⟩
  · simp only [settleOrPay, Tx.bind_ok, guarded_ok, Tx.lift_ok, Tx.pure_ok, Prod.mk.injEq,
      MeltStart.external.injEq] at hrest
    obtain ⟨_, _, ⟨-, rfl⟩, ⟨-, rfl⟩, rfl⟩ := hrest
    obtain ⟨row', hrow', hrowId', outputs, messages, hissued, hpromised⟩ :=
      settleExternal_change hsettle
    obtain rfl : row' = row := Table.eq_of_key hrow' hrow (hrowId'.trans hrowId.symm)
    have hcovers := h settling ⟨row'.inputsAmount, row'.inputsFee, outputs⟩ haccepted
    simp only [Covers, hpaid] at hcovers
    rw [hpromised, ← hinputs]
    exact hcovers messages hissued
  · simp [settleOrPay, Tx.bind_ok] at hrest

end Melts

/-- Take a melt quote that was accepted for an invoice with any options, and a payment of it that
settles with some total. All requests that cover the quote leave the mint with that total exactly
when rounding it down and the reserve lose nothing. Every melt of the quote then leaves the mint
with it. -/
theorem melt_covers_payment_iff (backend : Bolt11Backend) (nuts : MeltSettings)
    (reserve : FeeReserve) (id : QuoteId) (quoteRequest : MeltQuoteBolt11Request)
    (quoting quoted : Db) (asked quote : MeltQuote) (sent : Amount) (response : MakePaymentResponse)
    (hunit : quoteRequest.unit = .sat ∨ quoteRequest.unit = .msat)
    (haccepted : getMeltBolt11Quote nuts (some (backend.getPaymentQuote reserve)) id quoteRequest
      quoting = .ok (asked, quoted))
    (hquoted : quote.Quoted asked)
    (hsettles : backend.Settles quote.unit (quote.outgoing quoteRequest.request) sent response) :
    ((∀ keysets info, Accepts quote info → Covers keysets info quote response sent.toNat) ↔
      CostCovered backend quote sent.toNat) ∧
    (CostCovered backend quote sent.toNat →
      ∀ env keysets settling backends now operationId request writer writer' change db started db',
        startMelt env keysets backends now operationId request db =
            .ok ((writer, .external quote), started) →
          response.status = .paid →
          settleExternal env settling writer quote response started =
            .ok ((writer', change), db') →
          sent.toNat ≤ (Amount.total (request.inputs.map Proof.amount) - promised change) *
            msatPerUnit quote.unit) := by
  obtain ⟨ln, payment, hln, hpayment, rfl⟩ := getMeltBolt11Quote_ok haccepted
  cases hln
  have hquoteUnit : quote.unit = quoteRequest.unit := by rw [hquoted]
  have hoptions : quote.options = quoteRequest.options := by rw [hquoted]
  have hfrom : quote.From quoteRequest.request payment :=
    ⟨by rw [hquoted], by rw [hquoted], by rw [hquoted]⟩
  rw [← hquoteUnit] at hunit
  rw [← hquoteUnit, ← hoptions] at hpayment
  have hiff := backend.covers_iff hunit hfrom hpayment hsettles
  refine ⟨hiff, fun hcost => ?_⟩
  intro env keysets settling backends now operationId request writer writer' change db started db'
    hstart hpaid hsettle
  exact melt_covers hstart hsettle hpaid (hiff.mpr hcost)

/-! ## A melt that costs more than it charges -/

/-- A melt quote of CLN for an invoice. -/
def sampleOwed (msat : Amount) : MeltQuote × Db :=
  (getMeltBolt11Quote sampleNuts (some (Cln.getPaymentQuote sampleReserve)) (.uuid 1)
    ⟨⟨"lnbc1", 1, some msat⟩, .sat, none⟩ Db.empty).getD (sampleMeltQuote, Db.empty)

/-- The quote while it is paid. -/
def sampleDue (msat : Amount) : MeltQuote := { (sampleOwed msat).1 with state := .pending }

/-- The melt of that quote with a proof of one satoshi. -/
def sampleCharged (msat : Amount) : (ProofWriter × MeltStart) × Db :=
  (startMelt sampleEnv [sampleKeyset] (fun _ _ => true) 0 2 ⟨.uuid 1, [sampleProof 1 "a"], none⟩
    (sampleOwed msat).2).getD (([], .settled none), Db.empty)

def sampleCost (msat : Amount) : (ProofWriter × Option PendingChange) × Db :=
  (settleExternal sampleEnv [sampleKeyset] (sampleCharged msat).1.1 (sampleDue msat)
    ⟨.paymentHash 1, .paid, 1, .sat⟩ (sampleCharged msat).2).getD (([], none), Db.empty)

theorem sample_settles (msat : Amount) (hmsat : msat = 1000 ∨ msat = 1500) :
    Bolt11Backend.cln.Settles .sat ((sampleDue msat).outgoing ⟨"lnbc1", 1, some msat⟩) msat
      ⟨.paymentHash 1, .paid, 1, .sat⟩ := by
  refine .cln (fun _ => some []) (fun _ => some ⟨1, .complete, msat⟩) 1 rfl
    ⟨msat, 0, ?_, ?_, rfl⟩ ?_ <;> rcases hmsat with rfl | rfl
  all_goals decide +kernel

/-- An invoice of 1500 millisatoshi is quoted at one satoshi. The node sends 1500 for it and the
mint charges 1000. -/
theorem melt_costs_more :
    getMeltBolt11Quote sampleNuts (some (Bolt11Backend.cln.getPaymentQuote sampleReserve)) (.uuid 1)
        ⟨⟨"lnbc1", 1, some 1500⟩, .sat, none⟩ Db.empty = .ok (sampleOwed 1500) ∧
      startMelt sampleEnv [sampleKeyset] (fun _ _ => true) 0 2
          ⟨.uuid 1, [sampleProof 1 "a"], none⟩ (sampleOwed 1500).2 = .ok (sampleCharged 1500) ∧
      (sampleCharged 1500).1.2 = .external (sampleDue 1500) ∧
      Bolt11Backend.cln.Settles .sat ((sampleDue 1500).outgoing ⟨"lnbc1", 1, some 1500⟩) 1500
        ⟨.paymentHash 1, .paid, 1, .sat⟩ ∧
      settleExternal sampleEnv [sampleKeyset] (sampleCharged 1500).1.1 (sampleDue 1500)
        ⟨.paymentHash 1, .paid, 1, .sat⟩ (sampleCharged 1500).2 = .ok (sampleCost 1500) ∧
      ¬ 1500 ≤ (Amount.total ([sampleProof 1 "a"].map Proof.amount) -
        promised (sampleCost 1500).1.2) * msatPerUnit .sat := by
  refine ⟨by decide +kernel, by decide +kernel, by decide +kernel, ?_, by decide +kernel,
    by decide +kernel⟩
  exact sample_settles 1500 (.inr rfl)

theorem melt_covers_payment_iff_whole :
    CostCovered .cln (sampleDue 1000) 1000 ∧
      1000 ≤ (Amount.total ([sampleProof 1 "a"].map Proof.amount) -
        promised (sampleCost 1000).1.2) * msatPerUnit .sat := by
  have hcost : CostCovered .cln (sampleDue 1000) 1000 := .inr rfl
  refine ⟨hcost, ?_⟩
  exact (melt_covers_payment_iff .cln sampleNuts sampleReserve (.uuid 1)
    ⟨⟨"lnbc1", 1, some 1000⟩, .sat, none⟩ Db.empty (sampleOwed 1000).2 (sampleOwed 1000).1
    (sampleDue 1000) 1000 ⟨.paymentHash 1, .paid, 1, .sat⟩ (.inl rfl) (by decide +kernel)
    rfl (sample_settles 1000 (.inl rfl))).2 hcost sampleEnv [sampleKeyset]
    [sampleKeyset] (fun _ _ => true) 0 2 ⟨.uuid 1, [sampleProof 1 "a"], none⟩
    (sampleCharged 1000).1.1 (sampleCost 1000).1.1 (sampleCost 1000).1.2 (sampleOwed 1000).2
    (sampleCharged 1000).2 (sampleCost 1000).2 (by decide +kernel) rfl (by decide +kernel)

end Cdk
