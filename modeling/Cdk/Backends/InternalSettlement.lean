import Cdk.Backends.Cln
import Cdk.Mint.Solvency

/-!
# Internal settlement

A melt quote for an invoice of the mint itself is settled without the backend.
The mint quote is credited with the amount of the melt quote, which the backend
has worked out from the invoice and the options of the request, while it can
only be issued for the amount that it asks for.
-/

namespace Cdk

open Lib

/-! ## Melt quotes -/

/-- The limits of melting with one unit and method. -/
structure MeltMethodSettings where
  minAmount : Option Amount
  maxAmount : Option Amount
  amountless : Bool
deriving DecidableEq, Repr

/-- What the mint offers for melting. -/
structure MeltSettings where
  disabled : Bool
  methods : CurrencyUnit → PaymentMethod → Option MeltMethodSettings
  multiPart : CurrencyUnit → PaymentMethod → Bool

/-- `Mint::check_melt_request_acceptable`. -/
def checkMeltRequestAcceptable (nuts : MeltSettings) (amount : Amount) (unit : CurrencyUnit)
    (method : PaymentMethod) (request : String) (options : Option MeltOptions) :
    MintTx Unit := do
  Tx.ensure (!nuts.disabled) .meltingDisabled
  let settings ← Tx.lift (Outcome.ofOption .unsupportedUnit (nuts.methods unit method))
  match options with
  | some (.mpp _) => do
      -- an invoice of this mint cannot be paid in parts
      let known ← Tx.read fun db => db.mintQuotes.rows.any fun q => q.request = request
      Tx.ensure (!known) .internalMultiPartMeltQuote
      Tx.ensure (nuts.multiPart unit method) (.mppUnitMethodNotSupported unit method)
  | some (.amountless _) =>
      Tx.ensure (!(method = .bolt11 ∧ !settings.amountless))
        (.amountlessInvoiceNotSupported unit method)
  | none => pure ()
  Tx.ensure (settings.maxAmount.all (amount ≤ ·) ∧ settings.minAmount.all (· ≤ amount))
    (.amountOutofLimitRange (settings.minAmount.getD .zero).toNat
      (settings.maxAmount.getD .zero).toNat amount.toNat)

structure MeltQuoteBolt11Request where
  request : Bolt11Invoice
  unit : CurrencyUnit
  options : Option MeltOptions
deriving DecidableEq, Repr

/-- `Mint::get_melt_bolt11_quote_impl`; there may be no backend for the unit. -/
def getMeltBolt11Quote (nuts : MeltSettings)
    (processor : Option (CurrencyUnit → Bolt11OutgoingPaymentOptions →
      Outcome PaymentQuoteError PaymentQuoteResponse))
    (id : QuoteId) (request : MeltQuoteBolt11Request) : MintTx MeltQuote := do
  let ln ← Tx.lift (Outcome.ofOption .unsupportedUnit processor)
  let payment ← Tx.lift ((ln request.unit ⟨request.request, none, request.options⟩).mapErr
    fun _ => Error.unsupportedUnit)
  Tx.ensure (payment.unit = request.unit) .unitMismatch
  checkMeltRequestAcceptable nuts payment.amount request.unit .bolt11 request.request.text
    request.options
  let quote : MeltQuote :=
    ⟨id, request.unit, payment.amount, request.request.request, payment.fee, .unpaid,
      payment.requestLookupId, request.options, .bolt11⟩
  (Db.addMeltQuote quote).mapErr Error.ofDb
  pure quote

/-- A stored melt quote asks for what it was quoted for; only its state and the name of its payment
change. -/
def MeltQuote.Quoted (stored quote : MeltQuote) : Prop :=
  stored = { quote with state := stored.state, requestLookupId := stored.requestLookupId }

/-- The amount that the options of a melt quote ask for, rounded down to the unit, is the amount of
the mint quote. Without options it is the amount of the invoice. -/
def AsksFor (options : Option MeltOptions) (unit : CurrencyUnit) (amount : Amount) : Prop :=
  options.all fun o => toUnit o.amountMsat .msat unit = .ok amount

/-- A request for all outputs of a mint quote passes the check of its amount. -/
def Issuable (quote : MintQuote) (amount : Amount) : Prop :=
  quote.amountMintable = .ok amount ∧ mintAmount quote = .ok amount

/-- A paid quote that no request can be issued for and that takes no payment any more. -/
def Stuck (quote : MintQuote) : Prop :=
  quote.state = .paid ∧ quote.closed = true ∧ ∀ amount, mintAmount quote ≠ .ok amount

section Quotes

variable {nuts : MeltSettings} {reserve : FeeReserve} {id : QuoteId}
  {request : MeltQuoteBolt11Request} {quote : MeltQuote} {db db' : Db}

/-- What a melt quote takes over from the request and from the backend. -/
theorem getMeltBolt11Quote_ok {processor : Option (CurrencyUnit → Bolt11OutgoingPaymentOptions →
      Outcome PaymentQuoteError PaymentQuoteResponse)}
    (h : getMeltBolt11Quote nuts processor id request db = .ok (quote, db')) :
    ∃ ln payment, processor = some ln ∧
      ln request.unit ⟨request.request, none, request.options⟩ = .ok payment ∧
      quote = ⟨id, request.unit, payment.amount, request.request.request, payment.fee, .unpaid,
        payment.requestLookupId, request.options, .bolt11⟩ := by
  simp only [getMeltBolt11Quote, Tx.bind_ok, Tx.lift_ok, Outcome.ofOption_eq_ok,
    Outcome.mapErr_eq_ok, Tx.ensure_ok, Tx.pure_ok] at h
  obtain ⟨ln, _, ⟨hln, rfl⟩, payment, _, ⟨hpayment, rfl⟩, _, _, ⟨-, rfl⟩, _, _, -, _, _, -, rfl, -⟩ := h
  exact ⟨ln, payment, hln, hpayment, rfl⟩

theorem quoteMsat_ok {unit : CurrencyUnit} {invoice : Bolt11Invoice} {msat : Amount}
    {payment : PaymentQuoteResponse} (h : quoteMsat reserve unit invoice msat = .ok payment) :
    toUnit msat .msat unit = .ok payment.amount ∧ payment.fee = reserve.fee payment.amount := by
  simp only [quoteMsat, Outcome.bind_eq_ok, Outcome.mapErr_eq_ok, Outcome.ok.injEq] at h
  obtain ⟨amount, hamount, rfl⟩ := h
  exact ⟨hamount, rfl⟩

/-- The backend quotes the amount of the mint quote exactly when the options ask for it. -/
theorem Cln.quoted_iff_asksFor {options : Option MeltOptions} {invoice : Bolt11Invoice}
    {unit : CurrencyUnit} {amount msat : Amount} {payment : PaymentQuoteResponse}
    (hunit : unit = .sat ∨ unit = .msat) (hmsat : toUnit amount unit .msat = .ok msat)
    (hinvoice : invoice.amountMilliSatoshis = some msat)
    (h : Cln.getPaymentQuote reserve unit ⟨invoice, none, options⟩ = .ok payment) :
    payment.amount = amount ↔ AsksFor options unit amount := by
  simp only [Cln.getPaymentQuote, Outcome.bind_eq_ok] at h
  obtain ⟨asked, hasked, hquote⟩ := h
  obtain ⟨hamount, -⟩ := quoteMsat_ok hquote
  cases options with
  | none =>
      -- the invoice carries the amount of the mint quote
      simp only [Cln.quotedMsat, hinvoice, Outcome.ofOption, Outcome.ok.injEq] at hasked
      rw [← hasked, toUnit_msat_back hunit hmsat] at hamount
      simp only [AsksFor, Option.all_none, iff_true]
      exact (Outcome.ok.inj hamount).symm
  | some o =>
      have hmsat' : asked = o.amountMsat := by
        cases o with
        | mpp x =>
            simp only [Cln.quotedMsat, Outcome.ok.injEq] at hasked
            exact hasked.symm
        | amountless x =>
            simp only [Cln.quotedMsat, hinvoice] at hasked
            split at hasked
            · cases hasked
            · exact (Outcome.ok.inj hasked).symm
      simp only [AsksFor, Option.all_some, decide_eq_true_eq]
      rw [← hmsat', hamount, Outcome.ok.injEq]

end Quotes

/-! ## Settling -/

section Settling

variable {env : Env} {keysets : Keysets} {backends : Backends} {now : Nat} {operationId : Uuid}
  {request : MeltRequest} {writer : ProofWriter} {change : Option PendingChange} {db db' : Db}

/-- An internal settlement credits the mint quote of the invoice with the amount of the melt
quote. -/
theorem startMelt_internal {stored : MeltQuote} (hstored : stored ∈ db.meltQuotes.rows)
    (hid : stored.id = request.quote)
    (h : startMelt env keysets backends now operationId request db =
      .ok ((writer, .settled change), db')) :
    ∃ mintQuote paid, internalQuote stored db = some mintQuote ∧ mintQuote.closed = false ∧
      paid.toNat = mintQuote.amountPaid.toNat + stored.amount.toNat ∧
      db'.mintQuotes.find? mintQuote.id = some { mintQuote with amountPaid := paid } := by
  obtain ⟨rows, quote, ⟨-, hext, -⟩ | ⟨mintQuote, reserved, credited, _, ys, -, hres,
    ⟨hfound, hopen⟩, hcredit, hsettled⟩⟩ := startMelt_ok h
  · cases hext
  obtain ⟨q, hq, rfl⟩ := hres.stored
  obtain rfl : q = stored := Table.eq_of_key hq hstored (hres.quoteId.trans hid.symm)
  have hreserved : reserved.mintQuotes = db.mintQuotes := by rw [hres.frame]
  have hfinal : db'.mintQuotes = credited.mintQuotes := by rw [hsettled.frame]
  obtain ⟨paid, hpaid, hquotes⟩ := hcredit.quotes
  refine ⟨mintQuote, paid, ?_, hopen, hpaid, ?_⟩
  · simpa only [internalQuote, hreserved] using hfound
  · rw [Table.find?_eq_some, hfinal, hquotes, Table.update_rows]
    refine ⟨List.mem_map.mpr ⟨mintQuote, hcredit.mem, ?_⟩, rfl⟩
    simp [Db.setPaid]

end Settling

/-- Take a mint quote for an invoice that carries its amount, and a melt quote for that invoice that
was accepted with any options. Where a melt settles it internally, the mint quote can be issued for
its amount afterwards, and is not stuck, exactly when the options ask for the amount. -/
theorem internal_settlement_issuable_iff (env : Env) (keysets : Keysets) (backends : Backends)
    (nuts : MeltSettings) (reserve : FeeReserve) (now : Nat) (id : QuoteId) (operationId : Uuid)
    (quoteRequest : MeltQuoteBolt11Request) (request : MeltRequest) (writer : ProofWriter)
    (change : Option PendingChange) (quoting quoted db db' : Db) (quote stored : MeltQuote)
    (mintQuote : MintQuote) (amount msat : Amount)
    (hunit : mintQuote.unit = .sat ∨ mintQuote.unit = .msat)
    (hmethod : mintQuote.paymentMethod = .bolt11) (hamount : mintQuote.amount = some amount)
    (hmsat : toUnit amount mintQuote.unit .msat = .ok msat)
    (hinvoice : quoteRequest.request.amountMilliSatoshis = some msat)
    (haccepted : getMeltBolt11Quote nuts (some (Cln.getPaymentQuote reserve)) id quoteRequest
      quoting = .ok (quote, quoted))
    (hstored : stored ∈ db.meltQuotes.rows) (hquoted : stored.Quoted quote)
    (hrequest : request.quote = stored.id) (hfound : internalQuote stored db = some mintQuote)
    (hmelt : startMelt env keysets backends now operationId request db =
      .ok ((writer, .settled change), db')) :
    ∃ settled, db'.mintQuotes.find? mintQuote.id = some settled ∧
      (Issuable settled amount ∧ ¬ Stuck settled ↔
        AsksFor quoteRequest.options mintQuote.unit amount) := by
  obtain ⟨ln, payment, hln, hpayment, rfl⟩ := getMeltBolt11Quote_ok haccepted
  cases hln
  have hstoredUnit : stored.unit = quoteRequest.unit := by rw [hquoted]
  have hstoredAmount : stored.amount = payment.amount := by rw [hquoted]
  have hquoteUnit : mintQuote.unit = quoteRequest.unit :=
    (mem_of_internalQuote hfound).2.trans hstoredUnit
  obtain ⟨q, paid, hfound', hopen, hpaid, hsettled⟩ := startMelt_internal hstored hrequest.symm hmelt
  obtain rfl : q = mintQuote := Option.some.inj (hfound'.symm.trans hfound)
  obtain ⟨hpaid₀, hissued₀⟩ := MintQuote.unpaid_of_open hmethod hopen
  have hcredited : paid = payment.amount := by
    apply Amount.ext_toNat
    rw [hpaid, hpaid₀, hstoredAmount]
    exact Nat.zero_add _
  have hmintable : MintQuote.amountMintable { q with amountPaid := paid } = .ok payment.amount := by
    rw [MintQuote.amountMintable_unissued { q with amountPaid := paid } hissued₀, hcredited]
  rw [hquoteUnit] at hunit hmsat ⊢
  rw [← Cln.quoted_iff_asksFor hunit hmsat hinvoice hpayment]
  refine ⟨_, hsettled, ?_⟩
  constructor
  · rintro ⟨⟨hissuable, -⟩, -⟩
    rw [hmintable] at hissuable
    exact Outcome.ok.inj hissuable
  · rintro rfl
    have hmint : mintAmount { q with amountPaid := paid } = .ok payment.amount :=
      (mintAmount_unissued { q with amountPaid := paid } hmethod hissued₀).mpr ⟨hamount, hcredited⟩
    exact ⟨⟨hmintable, hmint⟩, fun hstuck => hstuck.2.2 _ hmint⟩

/-! ## A quote that is stuck -/

/-- An invoice of eight satoshis, for a mint quote of eight. -/
def sampleInvoice : Bolt11Invoice := ⟨"lnbc1", 1, some 8000⟩

def sampleInvoiceQuote : MintQuote :=
  ⟨.uuid 0, some 8, .sat, "lnbc1", .paymentHash 1, none, .zero, .zero, .bolt11⟩

/-- A mint that takes all requests and reserves no fees. -/
def sampleNuts : MeltSettings := ⟨false, fun _ _ => some ⟨none, none, true⟩, fun _ _ => true⟩

def sampleReserve : FeeReserve := ⟨fun _ => .zero, .zero⟩

def sampleAsked : Db := { Db.empty with mintQuotes := ⟨[sampleInvoiceQuote], by decide⟩ }

/-- A melt quote for the invoice with some options. -/
def sampleQuotedFor (options : Option MeltOptions) : MeltQuote × Db :=
  (getMeltBolt11Quote sampleNuts (some (Cln.getPaymentQuote sampleReserve)) (.uuid 1)
    ⟨sampleInvoice, .sat, options⟩ sampleAsked).getD (sampleMeltQuote, Db.empty)

/-- The melt of that quote with a proof of eight. -/
def sampleSettledFor (options : Option MeltOptions) : (ProofWriter × MeltStart) × Db :=
  (startMelt sampleEnv [sampleKeyset] (fun _ _ => true) 0 2 ⟨.uuid 1, [sampleProof 8 "a"], none⟩
    (sampleQuotedFor options).2).getD (([], .settled none), Db.empty)

/-- A melt quote for five satoshis of the invoice of eight is accepted. Its melt burns eight, and
the mint quote is credited with five and stuck. -/
theorem internal_settlement_sticks :
    getMeltBolt11Quote sampleNuts (some (Cln.getPaymentQuote sampleReserve)) (.uuid 1)
        ⟨sampleInvoice, .sat, some (.amountless 5000)⟩ sampleAsked =
          .ok (sampleQuotedFor (some (.amountless 5000))) ∧
      startMelt sampleEnv [sampleKeyset] (fun _ _ => true) 0 2
          ⟨.uuid 1, [sampleProof 8 "a"], none⟩ (sampleQuotedFor (some (.amountless 5000))).2 =
        .ok (sampleSettledFor (some (.amountless 5000))) ∧
      (sampleSettledFor (some (.amountless 5000))).1.2 = .settled none ∧
      (sampleSettledFor (some (.amountless 5000))).2.mintQuotes.find? (.uuid 0) =
        some { sampleInvoiceQuote with amountPaid := 5 } ∧
      ¬ Issuable { sampleInvoiceQuote with amountPaid := 5 } 8 ∧
      Stuck { sampleInvoiceQuote with amountPaid := 5 } := by
  refine ⟨by decide +kernel, by decide +kernel, by decide +kernel, by decide +kernel, ?_, ?_⟩
  · rintro ⟨h, -⟩
    revert h
    decide
  · have hrefused : mintAmount { sampleInvoiceQuote with amountPaid := 5 } =
        .err .incorrectQuoteAmount := by decide
    refine ⟨by decide, by decide, fun amount h => ?_⟩
    rw [hrefused] at h
    cases h

theorem internal_settlement_issuable_iff_invoice :
    AsksFor none .sat 8 ∧
      ∃ settled, (sampleSettledFor none).2.mintQuotes.find? (.uuid 0) = some settled ∧
        (Issuable settled 8 ∧ ¬ Stuck settled ↔ AsksFor none .sat 8) := by
  refine ⟨rfl, ?_⟩
  exact internal_settlement_issuable_iff sampleEnv [sampleKeyset] (fun _ _ => true) sampleNuts
    sampleReserve 0 (.uuid 1) 2 ⟨sampleInvoice, .sat, none⟩ ⟨.uuid 1, [sampleProof 8 "a"], none⟩
    (sampleSettledFor none).1.1 none sampleAsked (sampleQuotedFor none).2 (sampleQuotedFor none).2
    (sampleSettledFor none).2 (sampleQuotedFor none).1 (sampleQuotedFor none).1 sampleInvoiceQuote 8
    8000 (by decide) rfl rfl (by decide) rfl (by decide +kernel) (by decide +kernel) rfl
    (by decide +kernel) (by decide +kernel) (by decide +kernel)

end Cdk
