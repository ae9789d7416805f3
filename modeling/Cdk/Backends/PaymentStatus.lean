import Cdk.Backends.Cln
import Cdk.Backends.Lnd
import Cdk.Mint.MeltFailure

/-!
# Payments that went out

A backend condenses what its node knows of a payment into one status, and the
mint gives the inputs of a melt back on that status. CLN looks at the first
payment that the node lists, and LND at the satoshis of the route.
-/

namespace Cdk

open Lib

/-! ## Backends that report a payment -/

section Reports

variable {backend : PaymentBackend} {quote : MeltQuote}

/-- The answers of a backend to a payment that its node has made or may still make. -/
structure PaymentBackend.Reports (backend : PaymentBackend) (quote : MeltQuote) : Prop where
  notUnpaid : ∀ pay, backend.makePayment = .ok pay → pay.status ≠ .unpaid
  checked : ∀ pay, backend.makePayment = .ok pay → pay.status = .unknown ∨ pay.status = .failed →
    ∃ check, backend.checkOutgoingPayment pay.paymentLookupId = some check ∧
      check.status.isOpen = true
  found : ∃ lookup, quote.requestLookupId = some lookup ∧
    ∀ check, backend.checkOutgoingPayment lookup = some check → check.status.isOpen = true

/-- The check of a payment whose answer is in doubt is answered. -/
def PaymentBackend.Checked (backend : PaymentBackend) : Prop :=
  ∀ pay, backend.makePayment = .ok pay → pay.status = .unknown ∨ pay.status = .failed →
    (backend.checkOutgoingPayment pay.paymentLookupId).isSome

/-- A payment that is reported stays open, unless the backend has refused to pay it again. -/
theorem PaymentBackend.Reports.isOpen (h : backend.Reports quote)
    (hmade : backend.makePayment ≠ .error .invoiceAlreadyPaid) : backend.Open quote := by
  unfold PaymentBackend.Open PaymentBackend.lastStatus
  cases hpay : backend.makePayment with
  | ok pay =>
      refine .inl ?_
      dsimp only
      by_cases hdoubt : pay.status = .unknown ∨ pay.status = .failed
      · obtain ⟨check, hcheck, hopen⟩ := h.checked pay hpay hdoubt
        exact ⟨check.status, by rw [if_pos hdoubt, hcheck]; rfl, hopen⟩
      · refine ⟨pay.status, if_neg hdoubt, ?_⟩
        have hunpaid := h.notUnpaid pay hpay
        cases hstatus : pay.status with
        | paid => rfl
        | pending => rfl
        | unpaid => exact absurd hstatus hunpaid
        | unknown => exact absurd (.inl hstatus) hdoubt
        | failed => exact absurd (.inr hstatus) hdoubt
  | error error =>
      cases error with
      | invoiceAlreadyPaid => exact absurd hpay hmade
      | other =>
          obtain ⟨lookup, hlookup, hopen⟩ := h.found
          cases hcheck : backend.checkOutgoingPayment lookup with
          | none => exact .inr ⟨rfl, by simp [hlookup], by simp [hlookup, hcheck]⟩
          | some check =>
              exact .inl ⟨check.status, by simp [hlookup, hcheck], hopen check hcheck⟩

end Reports

/-! ## CLN -/

namespace Cln

/-- A payment that is complete or pending. -/
def PayStatus.isOpen : PayStatus → Bool
  | .failed => false
  | _ => true

/-- The node holds a payment that went out or may still go out. -/
def HoldsOpen (records : List PayRecord) : Prop := ∃ record ∈ records, record.status.isOpen = true

instance (records : List PayRecord) : Decidable (HoldsOpen records) :=
  inferInstanceAs (Decidable (∃ record ∈ records, _))

/-- An open payment is listed first. -/
def OpenFirst (records : List PayRecord) : Prop :=
  HoldsOpen records → ∃ record, records.head? = some record ∧ record.status.isOpen = true

/-- What the node answers while an invoice is paid: the payments it lists before and after, and its
answer to the payment. -/
structure Node where
  before : BitVec 256 → Option (List PayRecord)
  pay : PayRequest → Option PayResponse
  after : BitVec 256 → Option (List PayRecord)

/-- The backend of a node while it pays an invoice. -/
def Node.backend (node : Node) (unit : CurrencyUnit) (options : Bolt11OutgoingPaymentOptions) :
    PaymentBackend where
  makePayment := makePayment node.before node.pay unit options
  checkOutgoingPayment := checkOutgoingPayment node.after

/-- The node answers about the payment of the invoice, and lists the payments that it holds. -/
structure Node.Truthful (node : Node) (options : Bolt11OutgoingPaymentOptions)
    (records : List PayRecord) : Prop where
  pays : ∀ answer, node.pay (payRequest options) = some answer →
    answer.paymentHash = options.bolt11.paymentHash
  lists : ∀ listed, node.after options.bolt11.paymentHash = some listed → listed = records

section

variable {listpays : BitVec 256 → Option (List PayRecord)} {hash : BitVec 256}
  {records : List PayRecord} {unit : CurrencyUnit} {options : Bolt11OutgoingPaymentOptions}
  {response : MakePaymentResponse} {node : Node} {quote : MeltQuote}

@[simp] theorem PayStatus.toMintState_isOpen (status : PayStatus) :
    status.toMintState.isOpen = status.isOpen := by
  cases status <;> rfl

/-- An open payment that is listed first is reported. -/
theorem checkOutgoingPayment_open (hlisted : listpays hash = some records)
    (hfirst : OpenFirst records) (hopen : HoldsOpen records)
    (h : checkOutgoingPayment listpays (.paymentHash hash) = some response) :
    response.status.isOpen = true := by
  obtain ⟨record, hhead, hrecord⟩ := hfirst hopen
  simp only [checkOutgoingPayment, checkOutgoingPayment.answer, hlisted, hhead, Option.map_some,
    Option.some.injEq] at h
  rw [← h]
  exact (PayStatus.toMintState_isOpen _).trans hrecord

theorem Node.reports (htruth : node.Truthful options records) (hfirst : OpenFirst records)
    (hopen : HoldsOpen records)
    (hlookup : quote.requestLookupId = some (.paymentHash options.bolt11.paymentHash))
    (hchecked : (node.backend unit options).Checked) :
    (node.backend unit options).Reports quote := by
  have hfound : ∀ check, checkOutgoingPayment node.after
      (.paymentHash options.bolt11.paymentHash) = some check → check.status.isOpen = true := by
    intro check hcheck
    obtain ⟨listed, hlisted, -⟩ := Option.map_eq_some_iff.mp hcheck
    obtain rfl := htruth.lists listed hlisted
    exact checkOutgoingPayment_open hlisted hfirst hopen hcheck
  refine ⟨fun pay hpay => ?_, fun pay hpay hdoubt => ?_, _, hlookup, hfound⟩
  · obtain ⟨answer, _, -, -, rfl⟩ := makePayment_ok hpay
    cases answer.status <;> simp [PayStatus.toMintState]
  · obtain ⟨check, hcheck⟩ := Option.isSome_iff_exists.mp (hchecked pay hpay hdoubt)
    obtain ⟨answer, _, hanswer, -, rfl⟩ := makePayment_ok hpay
    refine ⟨check, hcheck, hfound check ?_⟩
    rw [← htruth.pays answer hanswer]
    exact hcheck

end

end Cln

/-! ## LND -/

namespace Lnd

/-- A payment that has succeeded or is on its way. -/
def PaymentStatus.isOpen : PaymentStatus → Bool
  | .inFlight => true
  | .succeeded => true
  | .initiated => true
  | _ => false

/-- The node holds a payment that went out or may still go out. -/
def HoldsOpen (held : Option PaymentStatus) : Prop := ∃ status ∈ held, status.isOpen = true

/-- What the node answers while an invoice is paid. -/
structure Node where
  before : PaymentIdentifier → Tracked
  send : SendRequest → Option SendResponse
  sendToRoute : QueryRoutesRequest → Nat → Option HtlcAttempt
  after : PaymentIdentifier → Tracked

/-- The backend of a node while it pays an invoice. -/
def Node.backend (node : Node) (options : Bolt11OutgoingPaymentOptions) : PaymentBackend where
  makePayment := makePayment
    (checkOutgoingPayment node.before (.paymentHash options.bolt11.paymentHash)) node.send
    node.sendToRoute options
  checkOutgoingPayment := checkOutgoingPayment node.after

/-- The answer of the node to a payment that is tracked ends with the status that it holds. -/
def Tracks (held : Option PaymentStatus) : Tracked → Prop
  | .notFound => held = none
  | .error => True
  | .updates payments => ∀ payment ∈ lastUpdate payments, held = some payment.status

/-- A payment without a route and a last attempt that has failed leave no payment at the node, and
it tracks the payment that it holds. -/
structure Node.Truthful (node : Node) (options : Bolt11OutgoingPaymentOptions)
    (held : Option PaymentStatus) : Prop where
  routes : node.send (sendRequest options) = some ⟨none⟩ → ¬ HoldsOpen held
  attempts : ∀ amount n attempt, node.sendToRoute (queryRoutes amount options) n = some attempt →
    attempt.failure ≠ some 15 → attempt.status = 2 → ¬ HoldsOpen held
  tracks : Tracks held (node.after (.paymentHash options.bolt11.paymentHash))

/-- A route carries at least one satoshi. -/
def WholeRoutes (response : Option SendResponse) : Prop :=
  ∀ total, response = some ⟨some total⟩ → 1000 ≤ total ∧ total < 2 ^ 63

section

variable {track : PaymentIdentifier → Tracked} {identifier : PaymentIdentifier}
  {held : Option PaymentStatus} {options : Bolt11OutgoingPaymentOptions}
  {response : MakePaymentResponse} {node : Node} {quote : MeltQuote}

/-- The update that ends a payment is not in flight. -/
theorem lastUpdate_final {payments : List (Option Payment)} {payment : Payment}
    (h : lastUpdate payments = some payment) :
    payment.status ≠ .inFlight ∧ payment.status ≠ .initiated := by
  induction payments with
  | nil => cases h
  | cons update payments ih =>
      cases update with
      | none => cases h
      | some first =>
          unfold lastUpdate at h
          cases hstatus : first.status with
          | inFlight => exact ih (by simpa only [hstatus] using h)
          | initiated => exact ih (by simpa only [hstatus] using h)
          | unknown | succeeded | failed =>
              simp only [hstatus, Option.some.injEq] at h
              simp [← h, hstatus]

/-- An open payment that is tracked to its end is reported. -/
theorem checkOutgoingPayment_open (htracks : Tracks held (track identifier))
    (hopen : HoldsOpen held) (h : checkOutgoingPayment track identifier = some response) :
    response.status.isOpen = true := by
  obtain ⟨status, hheld, hstatus⟩ := hopen
  unfold checkOutgoingPayment at h
  unfold Tracks at htracks
  split at h
  next htrack =>
    rw [htrack] at htracks
    rw [htracks] at hheld
    cases hheld
  next => cases h
  next payments htrack =>
    rw [htrack] at htracks
    obtain ⟨payment, hlast, hresponse⟩ := Option.bind_eq_some_iff.mp h
    obtain ⟨hflight, hinitiated⟩ := lastUpdate_final hlast
    obtain rfl : status = payment.status := Option.some.inj (hheld.symm.trans (htracks _ hlast))
    unfold updateResponse at hresponse
    cases hpayment : payment.status with
    | succeeded =>
        simp only [hpayment] at hresponse
        split at hresponse
        · rw [← Option.some.inj hresponse]
          rfl
        · cases hresponse
    | inFlight => exact absurd hpayment hflight
    | initiated => exact absurd hpayment hinitiated
    | unknown | failed => simp [hpayment, PaymentStatus.isOpen] at hstatus

/-- A route of at least one satoshi is reported as paid. -/
theorem sendPayment_paid {hash : BitVec 256} {total : Int} (hsat : 1000 ≤ total)
    (hfits : total < 2 ^ 63) : (sendPayment hash ⟨some total⟩).status = .paid := by
  obtain ⟨n, rfl⟩ := Int.eq_ofNat_of_zero_le (show 0 ≤ total by omega)
  refine if_neg fun h => ?_
  have hzero : (ofI64 ((n : Int).tdiv 1000)).toNat = 0 := congrArg Amount.toNat h
  rw [ofI64_tdiv (by omega)] at hzero
  omega

/-- The attempt that a payment in parts is answered with. -/
theorem sendParts_ok {hash : BitVec 256} {send : Nat → Option HtlcAttempt} {retries attempt : Nat}
    (h : sendParts hash send retries attempt = .ok response) :
    ∃ n last, send n = some last ∧ last.failure ≠ some 15 ∧
      response = attemptResponse hash last := by
  induction retries generalizing attempt with
  | zero => cases h
  | succ retries ih =>
      unfold sendParts at h
      split at h
      next => cases h
      next result hsend =>
        split at h
        next => exact ih h
        next hfailure => exact ⟨attempt, result, hsend, hfailure, (Except.ok.inj h).symm⟩

/-- What a payment that returns is answered with. -/
theorem pay_ok {send : SendRequest → Option SendResponse}
    {sendToRoute : QueryRoutesRequest → Nat → Option HtlcAttempt}
    (h : pay send sendToRoute options = .ok response) :
    (∃ amount n last, sendToRoute (queryRoutes amount options) n = some last ∧
      last.failure ≠ some 15 ∧ response = attemptResponse options.bolt11.paymentHash last) ∨
    ∃ answer, send (sendRequest options) = some answer ∧
      response = sendPayment options.bolt11.paymentHash answer := by
  unfold pay at h
  split at h
  next => cases h
  next amount _ _ _ =>
    obtain ⟨n, last, hsend, hfailure, rfl⟩ := sendParts_ok h
    exact .inl ⟨amount, n, last, hsend, hfailure, rfl⟩
  next =>
    split at h
    next => cases h
    next answer hanswer => exact .inr ⟨answer, hanswer, (Except.ok.inj h).symm⟩

theorem Node.reports (htruth : node.Truthful options held)
    (hwhole : WholeRoutes (node.send (sendRequest options))) (hopen : HoldsOpen held)
    (hlookup : quote.requestLookupId = some (.paymentHash options.bolt11.paymentHash))
    (hchecked : (node.backend options).Checked) : (node.backend options).Reports quote := by
  have hfound : ∀ check, checkOutgoingPayment node.after
      (.paymentHash options.bolt11.paymentHash) = some check → check.status.isOpen = true :=
    fun _ => checkOutgoingPayment_open htruth.tracks hopen
  refine ⟨fun pay hpay => ?_, fun pay hpay hdoubt => ?_, _, hlookup, hfound⟩
  · obtain ⟨amount, n, last, hlast, hfailure, rfl⟩ | ⟨⟨total⟩, hanswer, rfl⟩ :=
      pay_ok (makePayment_ok hpay)
    · intro hunpaid
      refine htruth.attempts amount n last hlast hfailure ?_ hopen
      simp only [attemptResponse] at hunpaid
      split at hunpaid <;> first | assumption | cases hunpaid
    · cases total with
      | none => exact absurd hopen (htruth.routes hanswer)
      | some total =>
          obtain ⟨hsat, hfits⟩ := hwhole total hanswer
          simp [sendPayment_paid hsat hfits]
  · obtain ⟨check, hcheck⟩ := Option.isSome_iff_exists.mp (hchecked pay hpay hdoubt)
    refine ⟨check, hcheck, hfound check ?_⟩
    obtain ⟨amount, n, last, -, -, rfl⟩ | ⟨answer, -, rfl⟩ := pay_ok (makePayment_ok hpay)
    · exact hcheck
    · exact hcheck

end

end Lnd

/-! ## Melts -/

/-- In every run in which only own proofs are deleted: a melt of a quote that is handed to a backend
gives its inputs back only when the backend has refused to pay the invoice again, or under the
condition. -/
def ReleasesOnlyIf (backend : PaymentBackend) (quote : MeltQuote) (condition : Prop) : Prop :=
  ∀ env backends keysets actions now request writer reserved,
    Along (World.step env backends) OwnProofs (World.init keysets) actions →
    startMelt env (World.reached env backends keysets actions).keysets backends now
        (World.reached env backends keysets actions).nextId request
        (World.reached env backends keysets actions).db =
      .ok ((writer, .external quote), reserved) →
    (melt env (World.reached env backends keysets actions).keysets backends backend now
      (World.reached env backends keysets actions).nextId request
      (World.reached env backends keysets actions).db).1 ≠ .panic →
    ¬ InputsHeld env request.inputs
      (melt env (World.reached env backends keysets actions).keysets backends backend now
        (World.reached env backends keysets actions).nextId request
        (World.reached env backends keysets actions).db).2 →
    backend.makePayment = .error .invoiceAlreadyPaid ∨ condition

theorem releasesOnlyIf_of_reports {backend : PaymentBackend} {quote : MeltQuote} {held : Prop}
    (hhanded : outgoingPaymentOptions quote = .ok ()) (h : held → backend.Reports quote) :
    ReleasesOnlyIf backend quote (¬ held) := by
  intro env backends keysets actions now request writer reserved hrun hstart hreturns hreleased
  by_contra hneither
  obtain ⟨hmade, hheld⟩ := not_or.mp hneither
  exact hreleased (melt_held_of_open (heldInv_run hrun) hstart hhanded
    ((h (not_not.mp hheld)).isOpen hmade) hreturns)

theorem outgoingPaymentOptions_invoice {quote : MeltQuote} {invoice : Bolt11Invoice}
    (h : quote.request = invoice.request) : outgoingPaymentOptions quote = .ok () := by
  simp [outgoingPaymentOptions, h, Bolt11Invoice.request]

/-- CLN reports a payment that is listed first, and LND one of at least a satoshi. Inputs of a melt
are given back only when the backend has refused to pay the invoice again, or the node holds no
payment of it that is complete or pending. -/
theorem payments_reported :
    (∀ listpays hash records response, listpays hash = some records → Cln.OpenFirst records →
      Cln.checkOutgoingPayment listpays (.paymentHash hash) = some response →
      response.status = .failed ∨ response.status = .unpaid ∨ response.status = .unknown →
      ¬ Cln.HoldsOpen records) ∧
    (∀ check send sendToRoute options total, checkOutgoingUnpaided check = .ok () →
      (∀ amount, options.meltOptions ≠ some (.mpp amount)) →
      send (Lnd.sendRequest options) = some ⟨some total⟩ → 1000 ≤ total → total < 2 ^ 63 →
      ∃ response, Lnd.makePayment check send sendToRoute options = .ok response ∧
        response.status = .paid) ∧
    (∀ (node : Cln.Node) quote invoice records, quote.request = invoice.request →
      quote.requestLookupId = some (.paymentHash invoice.paymentHash) →
      node.Truthful (quote.outgoing invoice) records → Cln.OpenFirst records →
      (node.backend quote.unit (quote.outgoing invoice)).Checked →
      ReleasesOnlyIf (node.backend quote.unit (quote.outgoing invoice)) quote
        (¬ Cln.HoldsOpen records)) ∧
    (∀ (node : Lnd.Node) quote invoice held, quote.request = invoice.request →
      quote.requestLookupId = some (.paymentHash invoice.paymentHash) →
      node.Truthful (quote.outgoing invoice) held →
      Lnd.WholeRoutes (node.send (Lnd.sendRequest (quote.outgoing invoice))) →
      (node.backend (quote.outgoing invoice)).Checked →
      ReleasesOnlyIf (node.backend (quote.outgoing invoice)) quote (¬ Lnd.HoldsOpen held)) := by
  refine ⟨?_, ?_, ?_, ?_⟩
  · intro listpays hash records response hlisted hfirst hcheck hstatus hopen
    have hreported := Cln.checkOutgoingPayment_open hlisted hfirst hopen hcheck
    rcases hstatus with hstatus | hstatus | hstatus <;>
      simp [hstatus, MeltQuoteState.isOpen] at hreported
  · intro check send sendToRoute options total hunpaid hwhole hsend hsat hfits
    refine ⟨Lnd.sendPayment options.bolt11.paymentHash ⟨some total⟩, ?_,
      Lnd.sendPayment_paid hsat hfits⟩
    rw [Lnd.makePayment, hunpaid]
    exact Lnd.pay_whole hwhole hsend
  · intro node quote invoice records hrequest hlookup htruth hfirst hchecked
    exact releasesOnlyIf_of_reports (outgoingPaymentOptions_invoice hrequest)
      fun hopen => Cln.Node.reports htruth hfirst hopen hlookup hchecked
  · intro node quote invoice held hrequest hlookup htruth hwhole hchecked
    exact releasesOnlyIf_of_reports (outgoingPaymentOptions_invoice hrequest)
      fun hopen => Lnd.Node.reports htruth hwhole hopen hlookup hchecked

/-! ## A payment that is not reported -/

def samplePaidInvoice : Bolt11Invoice := ⟨"lnbc3", 1, some 8000⟩

/-- A quote for the invoice, as CLN has quoted it. -/
def samplePaidQuote : MeltQuote :=
  ⟨.uuid 0, .sat, 8, samplePaidInvoice.request, .zero, .unpaid, some (.paymentHash 1), none, .bolt11⟩

/-- A mint with that quote. -/
def samplePaidWorld : World :=
  World.reached sampleEnv (fun _ _ => true) [sampleKeyset] [.createMeltQuote samplePaidQuote]

/-- A node that lists the same payments before and after a payment that ends with an error. -/
def sampleNode (records : List Cln.PayRecord) : Cln.Node :=
  ⟨fun _ => some records, fun _ => none, fun _ => some records⟩

/-- The melt of the quote while it is paid with the backend. -/
def sampleMelted (backend : PaymentBackend) : Outcome Error Unit × Db :=
  melt sampleEnv [sampleKeyset] (fun _ _ => true) backend 0 1 samplePayment samplePaidWorld.db

/-- The melt of the quote while it is paid at the node. -/
def sampleReported (records : List Cln.PayRecord) : Outcome Error Unit × Db :=
  sampleMelted ((sampleNode records).backend .sat (samplePaidQuote.outgoing samplePaidInvoice))

/-- A complete payment behind a failed one is reported as failed, and a route of 999 millisatoshi
as unpaid. The inputs of a melt are given back when the invoice was paid before. -/
theorem payment_not_reported :
    (Cln.HoldsOpen [⟨.failed, none⟩, ⟨.complete, some 8000⟩] ∧
      Cln.checkOutgoingPayment (fun _ => some [⟨.failed, none⟩, ⟨.complete, some 8000⟩])
        (.paymentHash 1) = some ⟨.paymentHash 1, .failed, .zero, .msat⟩) ∧
    Lnd.makePayment (some ⟨.paymentHash 1, .unknown, .zero, .msat⟩) (fun _ => some ⟨some 999⟩)
        (fun _ _ => none) (samplePaidQuote.outgoing samplePaidInvoice) =
      .ok ⟨.paymentHash 1, .unpaid, .zero, .sat⟩ ∧
    Cln.HoldsOpen [⟨.complete, some 8000⟩] ∧
    (sampleReported [⟨.complete, some 8000⟩]).1 = .err .requestAlreadyPaid ∧
    ¬ InputsHeld sampleEnv samplePayment.inputs (sampleReported [⟨.complete, some 8000⟩]).2 := by
  decide +kernel

/-- The state after the first transaction of the melt. -/
def samplePaidStarted : (ProofWriter × MeltStart) × Db :=
  (startMelt sampleEnv [sampleKeyset] (fun _ _ => true) 0 1 samplePayment samplePaidWorld.db).getD
    (([], .settled none), Db.empty)

/-- A node that has listed a failed payment, and behind an error a pending one before it. -/
def samplePendingNode : Cln.Node :=
  ⟨fun _ => some [⟨.failed, none⟩], fun _ => none,
    fun _ => some [⟨.pending, none⟩, ⟨.failed, none⟩]⟩

/-- A node of which a payment that has ended with an error succeeds. -/
def sampleLndNode : Lnd.Node where
  before _ := .notFound
  send _ := none
  sendToRoute _ _ := none
  after _ := .updates [some ⟨.inFlight, 0, 0⟩, some ⟨.succeeded, 8, 0⟩]

/-- The inputs are given back where both payments have failed, and held where a pending one is
listed first and where LND tracks one to its success. A payment of eight is reported as paid. -/
theorem payments_reported_failed :
    (¬ InputsHeld sampleEnv samplePayment.inputs
        (sampleReported [⟨.failed, none⟩, ⟨.failed, some 8000⟩]).2 ∧
      ¬ Cln.HoldsOpen [⟨.failed, none⟩, ⟨.failed, some 8000⟩]) ∧
    (∃ response, Lnd.makePayment (some ⟨.paymentHash 1, .unknown, .zero, .msat⟩)
        (fun _ => some ⟨some 8000⟩) (fun _ _ => none)
        (samplePaidQuote.outgoing samplePaidInvoice) = .ok response ∧ response.status = .paid) ∧
    InputsHeld sampleEnv samplePayment.inputs (sampleMelted
      (samplePendingNode.backend .sat (samplePaidQuote.outgoing samplePaidInvoice))).2 ∧
    InputsHeld sampleEnv samplePayment.inputs (sampleMelted
      (sampleLndNode.backend (samplePaidQuote.outgoing samplePaidInvoice))).2 := by
  obtain ⟨hlisted, hwhole, hcln, hlnd⟩ := payments_reported
  have hstarted : startMelt sampleEnv samplePaidWorld.keysets (fun _ _ => true) 0
      samplePaidWorld.nextId samplePayment samplePaidWorld.db =
        .ok ((samplePaidStarted.1.1, .external { samplePaidQuote with state := .pending }),
          samplePaidStarted.2) := by
    decide +kernel
  refine ⟨⟨by decide +kernel, ?_⟩, ?_, ?_, ?_⟩
  · exact hlisted (fun _ => some [⟨.failed, none⟩, ⟨.failed, some 8000⟩]) 1 _
      ⟨.paymentHash 1, .failed, .zero, .msat⟩ rfl (fun h => absurd h (by decide)) (by decide)
      (.inl rfl)
  · exact hwhole _ _ _ _ 8000 rfl (fun _ h => by cases h) rfl (by decide) (by decide)
  · by_contra hreleased
    have honly := hcln samplePendingNode { samplePaidQuote with state := .pending }
      samplePaidInvoice [⟨.pending, none⟩, ⟨.failed, none⟩] rfl rfl
      ⟨fun _ h => absurd h (Option.some_ne_none _).symm, fun _ h => (Option.some.inj h).symm⟩
      (fun _ => ⟨_, rfl, rfl⟩) (fun _ h => by cases h)
    rcases honly sampleEnv (fun _ _ => true) [sampleKeyset] [.createMeltQuote samplePaidQuote] 0
      samplePayment samplePaidStarted.1.1 samplePaidStarted.2 (by decide +kernel) hstarted
      (by decide +kernel) hreleased with hmade | hnone
    · cases hmade
    · exact hnone (by decide)
  · by_contra hreleased
    have honly := hlnd sampleLndNode { samplePaidQuote with state := .pending } samplePaidInvoice
      (some .succeeded) rfl rfl
      ⟨fun h => (Option.some_ne_none _ h.symm).elim,
        fun _ _ _ h => (Option.some_ne_none _ h.symm).elim, fun _ h => by cases h; rfl⟩
      (fun _ h => (Option.some_ne_none _ h.symm).elim) (fun _ h => by cases h)
    rcases honly sampleEnv (fun _ _ => true) [sampleKeyset] [.createMeltQuote samplePaidQuote] 0
      samplePayment samplePaidStarted.1.1 samplePaidStarted.2 (by decide +kernel) hstarted
      (by decide +kernel) hreleased with hmade | hnone
    · cases hmade
    · exact hnone ⟨_, rfl, rfl⟩

end Cdk
