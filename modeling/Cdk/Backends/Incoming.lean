import Cdk.Backends.Cln
import Cdk.Mint.Transactions

/-!
# Payments of the invoices of CLN

A payment of an invoice is reported by the stream, with the amount that was
received, and by the status check, with the amount that was asked for. The first
report credits the quote, and the later ones change nothing.
-/

namespace Cdk

open Lib

/-! ## Reports -/

/-- A report of the payment of an invoice. A check loads the quote before its transaction, and an
early one has loaded it before all reports. -/
inductive Report where
  | stream
  | status (early : Bool)
deriving DecidableEq, Repr

section Reports

variable (quote : MintQuote) (invoice : Cln.Invoice)

def Report.apply (db : Db) : Report → Db
  | .stream =>
      match Cln.streamPayment invoice none with
      | some response => (Tx.commit (handlePaymentNotification response) db).2
      | none => db
  | .status early =>
      (Tx.commit (checkMintQuotePaid
        (some (.ok (Cln.checkIncomingPaymentStatus quote.requestLookupId [invoice])))
        (if early then quote else (db.mintQuotes.find? quote.id).getD quote)) db).2

def reported (reports : List Report) (db : Db) : Db :=
  reports.foldl (Report.apply quote invoice) db

end Reports

/-- The checks of `process_mint_request` on the state and on the amount of a quote, after its own
check of the payment. -/
def PassesChecks (answer : StatusAnswer) (quoteId : QuoteId) (amount : Amount) (db : Db) : Prop :=
  ∃ quote checked reloaded, db.mintQuotes.find? quoteId = some quote ∧
    Tx.commit (checkMintQuotePaid answer quote) db = (.ok (), checked) ∧
    checked.mintQuotes.find? quoteId = some reloaded ∧ reloaded.state = .paid ∧
    mintAmount reloaded = .ok amount ∧ amountAccepted reloaded amount amount = true

/-- A quote is found by its name and by the name of its invoice. -/
structure Finds (quote : MintQuote) (db : Db) : Prop where
  byId : db.mintQuotes.find? quote.id = some quote
  byLookup : db.mintQuotes.rows.find? (fun q => q.requestLookupId = quote.requestLookupId) =
    some quote

/-- A quote for an invoice whose payment has not been reported. -/
structure Waiting (quote : MintQuote) (invoice : Cln.Invoice) (db : Db) : Prop where
  stored : Finds quote db
  unpaid : quote.amountPaid = .zero ∧ quote.amountIssued = .zero
  fresh : ∀ row ∈ db.payments.rows, row.paymentId ≠ paymentHashText invoice.paymentHash

/-- A payment of the invoice of a quote, of at least the amount that it asks for. -/
structure Cln.Invoice.Pays (invoice : Cln.Invoice) (quote : MintQuote) (amount received : Amount) :
    Prop where
  paid : invoice.paid = true
  single : invoice.offer = false
  lookup : quote.requestLookupId = .paymentHash invoice.paymentHash
  asked : ∃ msat, Cln.invoiceAmount amount quote.unit = .ok msat ∧ invoice.amountMsat = some msat ∧
    msat ≤ received
  received : invoice.amountReceivedMsat = some received

/-- The columns of the database hold the amount of a payment. -/
def Creditable (amount : Amount) : Prop := amount ≠ .zero ∧ amount.toI64.isSome = true

instance (amount : Amount) : Decidable (Creditable amount) := inferInstanceAs (Decidable (_ ∧ _))

/-! ## Credits -/

section Credits

variable {quote : MintQuote} {invoice : Cln.Invoice} {db db' : Db} {amount paid : Amount}
  {paymentId : String}

theorem Finds.mem (h : Finds quote db) : quote ∈ db.mintQuotes.rows :=
  (Table.find?_eq_some.mp h.byId).1

/-- Credits keep the name of the invoice of a quote. -/
theorem find?_setPaid (db : Db) (request : PaymentIdentifier) (id : QuoteId) (paid : Amount) :
    (db.mintQuotes.update (Db.setPaid id paid) (Db.setPaid_id id paid)).rows.find?
        (fun q => q.requestLookupId = request) =
      (db.mintQuotes.rows.find? fun q => q.requestLookupId = request).map (Db.setPaid id paid) := by
  have hkeep : ∀ q : MintQuote, (Db.setPaid id paid q).requestLookupId = q.requestLookupId := by
    intro q
    unfold Db.setPaid
    split <;> rfl
  simp only [Table.update_rows, List.find?_map, Function.comp_def, hkeep]

/-- A credit of a quote is found by the same names. -/
theorem Finds.setPaid (h : Finds quote db) (paid : Amount) :
    Finds { quote with amountPaid := paid } { db with
      mintQuotes := db.mintQuotes.update (Db.setPaid quote.id paid)
        (Db.setPaid_id quote.id paid) } := by
  have hset : Db.setPaid quote.id paid quote = { quote with amountPaid := paid } := by
    simp [Db.setPaid]
  refine ⟨?_, ?_⟩
  · refine Table.find?_eq_some.mpr ⟨?_, rfl⟩
    rw [Table.update_rows, ← hset]
    exact List.mem_map_of_mem h.mem
  · have hfound := find?_setPaid db quote.requestLookupId quote.id paid
    rw [h.byLookup, Option.map_some, hset] at hfound
    exact hfound

/-- The amount of a payment is recorded only when the columns hold it. -/
theorem creditable_of_ok {quoteId : QuoteId}
    (h : Db.incrementMintQuoteAmountPaid quoteId amount paymentId db = .ok (paid, db')) :
    Creditable amount := by
  simp only [Db.incrementMintQuoteAmountPaid, Tx.bind_ok, Tx.ensure_ok, decide_eq_true_eq] at h
  obtain ⟨_, _, ⟨hzero, -⟩, _, _, -, _, _, -, _, _, -, _, _, -, _, _, -, _, _, -, _, _, ⟨hcolumn, -⟩,
    -⟩ := h
  exact ⟨hzero, hcolumn⟩

/-- A payment with a new name that the columns hold is recorded. -/
theorem exists_credit {paymentId : String} (hquote : db.mintQuotes.find? quote.id = some quote)
    (hfresh : ∀ row ∈ db.payments.rows, row.paymentId ≠ paymentId) (hamount : Creditable amount)
    (hpaid : quote.amountPaid.checkedAdd amount = some paid) (hcolumn : paid.toI64.isSome = true) :
    ∃ t, t.rows = db.payments.rows ++ [⟨quote.id, paymentId, amount⟩] ∧
      Db.incrementMintQuoteAmountPaid quote.id amount paymentId db = .ok (paid, { db with
        mintQuotes := db.mintQuotes.update (Db.setPaid quote.id paid) (Db.setPaid_id quote.id paid)
        payments := t }) := by
  obtain ⟨t, ht⟩ : ∃ t, db.payments.insert? ⟨quote.id, paymentId, amount⟩ = some t := by
    rw [← Option.isSome_iff_exists, Option.isSome_iff_ne_none, ne_eq, Table.insert?_eq_none]
    rintro ⟨row, hrow, hkey⟩
    exact hfresh row hrow hkey
  have hseen : db.payments.find? paymentId = none := Table.find?_eq_none.mpr hfresh
  refine ⟨t, (Table.insert?_eq_some.mp ht).2, ?_⟩
  simp [Db.incrementMintQuoteAmountPaid, Tx.bind_ok, Db.insertPayment, hquote, hseen, hpaid,
    hcolumn, hamount.1, hamount.2, ht]

theorem not_mem_paymentIds {paymentId : String} {quoteId : QuoteId}
    (hfresh : ∀ row ∈ db.payments.rows, row.paymentId ≠ paymentId) :
    paymentId ∉ Db.paymentIds quoteId db := by
  intro hmem
  obtain ⟨row, hrow, hname⟩ := List.mem_map.mp hmem
  exact hfresh row (List.mem_of_mem_filter hrow) hname

/-- A notification records a new payment of an open quote that the columns hold. -/
theorem handlePaymentNotification_credit {response : WaitPaymentResponse}
    (hpositive : response.paymentAmount ≠ .zero)
    (hfound : db.mintQuotes.rows.find?
      (fun q => q.requestLookupId = response.paymentIdentifier) = some quote)
    (hopen : quote.closed = false)
    (hfresh : ∀ row ∈ db.payments.rows, row.paymentId ≠ response.paymentId)
    (hunit : toUnit response.paymentAmount response.unit quote.unit = .ok amount)
    (hamount : Creditable amount) (hpaid : quote.amountPaid.checkedAdd amount = some paid)
    (hcolumn : paid.toI64.isSome = true) :
    ∃ t, t.rows = db.payments.rows ++ [⟨quote.id, response.paymentId, amount⟩] ∧
      handlePaymentNotification response db = .ok ((), { db with
        mintQuotes := db.mintQuotes.update (Db.setPaid quote.id paid) (Db.setPaid_id quote.id paid)
        payments := t }) := by
  have hstored : db.mintQuotes.find? quote.id = some quote :=
    Table.find?_eq_some.mpr ⟨List.mem_of_find?_eq_some hfound, rfl⟩
  obtain ⟨t, hrows, hcredit⟩ := exists_credit hstored hfresh hamount hpaid hcolumn
  refine ⟨t, hrows, ?_⟩
  simp [handlePaymentNotification, handleMintQuotePayment, Tx.bind_ok, Tx.ite_ok, hpositive, hfound,
    not_mem_paymentIds hfresh, hopen, hunit, hamount.1, hcredit]

theorem Waiting.checkedAdd (h : Waiting quote invoice db) :
    quote.amountPaid.checkedAdd amount = some amount := by
  rw [h.unpaid.1, Amount.checkedAdd_eq_some]
  exact (Nat.zero_add _).symm

/-- The first payment of a quote. -/
theorem Waiting.credit (h : Waiting quote invoice db) (hamount : Creditable amount) :
    ∃ db', Db.incrementMintQuoteAmountPaid quote.id amount (paymentHashText invoice.paymentHash) db =
        .ok (amount, db') ∧
      Finds { quote with amountPaid := amount } db' := by
  obtain ⟨t, -, hcredit⟩ := exists_credit h.stored.byId h.fresh hamount h.checkedAdd hamount.2
  have hfinds := h.stored.setPaid amount
  exact ⟨_, hcredit, hfinds.byId, hfinds.byLookup⟩

theorem Waiting.open (h : Waiting quote invoice db) :
    quote.state = .unpaid ∧ quote.closed = false := by
  have hstate : quote.state = .unpaid := by simp [MintQuote.state, h.unpaid.1, h.unpaid.2]
  exact ⟨hstate, by simp [MintQuote.closed, hstate]⟩

theorem Waiting.not_seen (h : Waiting quote invoice db) :
    paymentHashText invoice.paymentHash ∉ Db.paymentIds quote.id db :=
  not_mem_paymentIds h.fresh

end Credits

/-! ## The effect of a report -/

section Effects

variable {quote : MintQuote} {invoice : Cln.Invoice} {db : Db} {amount received msat : Amount}
  {response : WaitPaymentResponse}

/-- A notification credits a quote that waits. -/
theorem Waiting.notify (h : Waiting quote invoice db)
    (hfor : response.paymentIdentifier = quote.requestLookupId)
    (hid : response.paymentId = paymentHashText invoice.paymentHash)
    (hunit : toUnit response.paymentAmount response.unit quote.unit = .ok amount)
    (hamount : Creditable amount) (hpaid : response.paymentAmount ≠ .zero) :
    Finds { quote with amountPaid := amount }
      (Tx.commit (handlePaymentNotification response) db).2 := by
  obtain ⟨t, -, hok⟩ := handlePaymentNotification_credit hpaid (by rw [hfor]; exact h.stored.byLookup)
    h.open.2 (by rw [hid]; exact h.fresh) hunit hamount h.checkedAdd hamount.2
  have hfinds := h.stored.setPaid amount
  rw [Tx.commit_eq_ok.mpr hok]
  exact ⟨hfinds.byId, hfinds.byLookup⟩

/-- A notification of an amount that the columns do not hold changes nothing. -/
theorem Waiting.notify_refused (h : Waiting quote invoice db)
    (hfor : response.paymentIdentifier = quote.requestLookupId)
    (hid : response.paymentId = paymentHashText invoice.paymentHash)
    (hunit : toUnit response.paymentAmount response.unit quote.unit = .ok amount)
    (hamount : ¬ Creditable amount) :
    (Tx.commit (handlePaymentNotification response) db).2 = db := by
  rcases Tx.commit_cases (handlePaymentNotification response) db with ⟨_, db', hok, -⟩ | ⟨-, hsame, -⟩
  · simp only [handlePaymentNotification, handleMintQuotePayment, Tx.bind_ok, Tx.read_ok,
      Tx.ensure_ok, hfor] at hok
    obtain ⟨_, _, ⟨-, rfl⟩, found, _, ⟨hfound, rfl⟩, hok⟩ := hok
    obtain rfl := h.stored.byLookup.symm.trans hfound
    simp only [Tx.bind_ok, Tx.read_ok, Tx.ite_ok, hid, Tx.lift_ok, hunit, Outcome.ok.injEq,
      Tx.mapErr_ok] at hok
    obtain ⟨_, _, ⟨rfl, rfl⟩, ⟨hskip, -⟩ | ⟨-, _, _, ⟨rfl, rfl⟩, _, _, -, paid, _, hinc, -⟩⟩ := hok
    · rcases hskip with hseen | hclosed
      · exact absurd hseen h.not_seen
      · exact absurd hclosed (by simp [h.open.2])
    · exact absurd (creditable_of_ok hinc) hamount
  · exact hsame

/-- A check credits a quote that waits. -/
theorem Waiting.check (h : Waiting quote invoice db)
    (hid : response.paymentId = paymentHashText invoice.paymentHash)
    (hunit : toUnit response.paymentAmount response.unit quote.unit = .ok amount)
    (hamount : Creditable amount) (hpaid : response.paymentAmount ≠ .zero) :
    Finds { quote with amountPaid := amount }
      (Tx.commit (checkMintQuotePaid (some (.ok [response])) quote) db).2 := by
  obtain ⟨db', hcredit, hfinds⟩ := h.credit hamount
  have hok : checkMintQuotePaid (some (.ok [response])) quote db = .ok ((), db') := by
    simp [checkMintQuotePaid, creditPayments, creditPayment, Tx.bind_ok, Tx.ite_ok, h.stored.byId,
      hid, h.not_seen, h.open.2, hunit, hpaid, h.checkedAdd, hcredit]
  rw [Tx.commit_eq_ok.mpr hok]
  exact hfinds

/-- A notification for a closed quote changes nothing. -/
theorem Finds.notify_closed (h : Finds quote db) (hclosed : quote.closed = true)
    (hfor : response.paymentIdentifier = quote.requestLookupId) :
    (Tx.commit (handlePaymentNotification response) db).2 = db := by
  rcases Tx.commit_cases (handlePaymentNotification response) db with ⟨_, db', hok, heq⟩ | ⟨-, hsame, -⟩
  · rw [heq]
    simp only [handlePaymentNotification, handleMintQuotePayment, Tx.bind_ok, Tx.read_ok,
      Tx.ensure_ok, hfor] at hok
    obtain ⟨_, _, ⟨-, rfl⟩, found, _, ⟨hfound, rfl⟩, hok⟩ := hok
    obtain rfl := h.byLookup.symm.trans hfound
    simp only [Tx.bind_ok, Tx.read_ok, hclosed, or_true, if_true, Tx.pure_ok] at hok
    obtain ⟨_, _, ⟨-, rfl⟩, -, rfl⟩ := hok
    rfl
  · exact hsame

/-- A check of a closed quote changes nothing, also when it was loaded before. -/
theorem Finds.check_closed (h : Finds quote db) (hclosed : quote.closed = true)
    {loaded : MintQuote} (hid : loaded.id = quote.id) (answer : StatusAnswer) :
    (Tx.commit (checkMintQuotePaid answer loaded) db).2 = db := by
  rcases Tx.commit_cases (checkMintQuotePaid answer loaded) db with ⟨_, db', hok, heq⟩ | ⟨-, hsame, -⟩
  · rw [heq]
    simp only [checkMintQuotePaid, creditPayments, Tx.ite_ok, Tx.pure_ok, Tx.bind_ok, Tx.lift_ok,
      Tx.read_ok, hid] at hok
    obtain ⟨-, -, rfl⟩ | ⟨-, _, _, ⟨-, rfl⟩, payments, _, ⟨-, rfl⟩, ⟨-, -, rfl⟩ | ⟨-, found, _,
      ⟨hfound, rfl⟩, stored, _, ⟨hstored, rfl⟩, seen, _, ⟨-, rfl⟩, ⟨-, -, rfl⟩ | ⟨hopen, -⟩⟩⟩ := hok
    · rfl
    · rfl
    · rfl
    · rw [← hfound, h.byId] at hstored
      obtain rfl := Outcome.ok.inj hstored
      exact absurd hclosed hopen
  · exact hsame

end Effects

/-! ## Runs of reports -/

section Runs

variable {quote : MintQuote} {invoice : Cln.Invoice} {db : Db} {amount received credited : Amount}

theorem Cln.Invoice.Pays.streamPayment (h : invoice.Pays quote amount received) :
    Cln.streamPayment invoice none = some ⟨quote.requestLookupId, received, .msat,
      paymentHashText invoice.paymentHash⟩ := by
  simp [Cln.streamPayment, Cln.streamIdentifier, h.received, h.single, h.lookup]

/-- The stream credits the amount that was received. -/
theorem Waiting.stream (h : Waiting quote invoice db) (hpays : invoice.Pays quote amount received)
    (hunit : toUnit received .msat quote.unit = .ok credited) (hcredited : Creditable credited)
    (hsupported : quote.unit = .sat ∨ quote.unit = .msat) :
    Finds { quote with amountPaid := credited } (Report.apply quote invoice db .stream) := by
  have hpos : received ≠ .zero := by
    rintro rfl
    rw [toUnit_of_msat hsupported] at hunit
    exact hcredited.1 (Amount.ext_toNat (hunit.trans (Nat.zero_div _)))
  simp only [Report.apply, hpays.streamPayment]
  exact h.notify rfl rfl hunit hcredited hpos

theorem Waiting.stream_refused (h : Waiting quote invoice db)
    (hpays : invoice.Pays quote amount received)
    (hunit : toUnit received .msat quote.unit = .ok credited) (hcredited : ¬ Creditable credited) :
    Report.apply quote invoice db .stream = db := by
  simp only [Report.apply, hpays.streamPayment]
  exact h.notify_refused rfl rfl hunit hcredited

/-- The check credits the amount that was asked for. -/
theorem Waiting.status (h : Waiting quote invoice db) (hpays : invoice.Pays quote amount received)
    (hamount : Creditable amount) (hsupported : quote.unit = .sat ∨ quote.unit = .msat)
    (early : Bool) :
    Finds { quote with amountPaid := amount }
      (Report.apply quote invoice db (.status early)) := by
  obtain ⟨msat, hmsat, hasked, -⟩ := hpays.asked
  have hback : toUnit msat .msat quote.unit = .ok amount := toUnit_msat_back hsupported hmsat
  have hpos : msat ≠ .zero := by
    rintro rfl
    rw [toUnit_of_msat hsupported] at hback
    exact hamount.1 (Amount.ext_toNat (hback.trans (Nat.zero_div _)))
  have hloaded : (if early then quote else (db.mintQuotes.find? quote.id).getD quote) = quote := by
    simp [h.stored.byId]
  simp only [Report.apply, Cln.checkIncomingPaymentStatus, List.filterMap_cons, List.filterMap_nil,
    Cln.statusPayment, hpays.paid, if_true, hasked, Option.map_some, hloaded]
  exact h.check rfl hback hamount hpos

/-- Later reports change nothing. -/
theorem Finds.report_closed (h : Finds { quote with amountPaid := credited } db)
    (hclosed : MintQuote.closed { quote with amountPaid := credited } = true)
    (hpays : invoice.Pays quote amount received) (report : Report) :
    Report.apply quote invoice db report = db := by
  cases report with
  | stream =>
      simp only [Report.apply, hpays.streamPayment]
      exact h.notify_closed hclosed rfl
  | status early =>
      refine h.check_closed hclosed ?_ _
      cases early
      · have hbyId : db.mintQuotes.find? quote.id = some { quote with amountPaid := credited } :=
          h.byId
        simp [hbyId]
      · rfl

theorem Finds.reported_closed (h : Finds { quote with amountPaid := credited } db)
    (hclosed : MintQuote.closed { quote with amountPaid := credited } = true)
    (hpays : invoice.Pays quote amount received) (reports : List Report) :
    reported quote invoice reports db = db := by
  induction reports with
  | nil => rfl
  | cons report reports ih =>
      rw [reported, List.foldl_cons, h.report_closed hclosed hpays]
      exact ih

/-- A quote that has been credited with its amount passes the checks, whatever the backend answers
to the check of the payment. -/
theorem Finds.passesChecks (h : Finds { quote with amountPaid := amount } db)
    (hmethod : quote.paymentMethod = .bolt11) (hamount : quote.amount = some amount)
    (hissued : quote.amountIssued = .zero) (hpos : amount ≠ .zero) (answer : StatusAnswer) :
    PassesChecks answer quote.id amount db := by
  obtain ⟨hstate, hclosed⟩ := MintQuote.closed_of_paid hmethod hissued hpos
  refine ⟨_, db, _, h.byId, ?_, h.byId, hstate, ?_, ?_⟩
  · rw [Tx.commit_eq_ok, checkMintQuotePaid, if_pos hclosed]
    rfl
  · exact (mintAmount_unissued { quote with amountPaid := amount } hmethod hissued).mpr
      ⟨hamount, rfl⟩
  · simp [amountAccepted, hmethod]

/-- A quote that passes the checks after a credit has been credited with its amount. -/
theorem Finds.eq_of_passes (h : Finds { quote with amountPaid := credited } db)
    (hmethod : quote.paymentMethod = .bolt11) (hissued : quote.amountIssued = .zero)
    (hpos : credited ≠ .zero) {answer : StatusAnswer}
    (hpasses : PassesChecks answer quote.id amount db) : credited = amount := by
  obtain ⟨-, hclosed⟩ := MintQuote.closed_of_paid hmethod hissued hpos
  obtain ⟨found, checked, reloaded, hfound, hcheck, hreloaded, -, hmint, -⟩ := hpasses
  obtain rfl := Option.some.inj (h.byId.symm.trans hfound)
  rw [Tx.commit_eq_ok, checkMintQuotePaid, if_pos hclosed, Tx.pure_ok] at hcheck
  obtain ⟨-, rfl⟩ := hcheck
  obtain rfl := Option.some.inj (h.byId.symm.trans hreloaded)
  exact ((mintAmount_unissued { quote with amountPaid := credited } hmethod hissued).mp hmint).2

/-- A quote that waits does not pass the checks when the backend reports nothing. -/
theorem Waiting.not_passes (h : Waiting quote invoice db) :
    ¬ PassesChecks (some (.ok [])) quote.id amount db := by
  rintro ⟨found, checked, reloaded, hfound, hcheck, hreloaded, hstate, -⟩
  obtain rfl := Option.some.inj (h.stored.byId.symm.trans hfound)
  have hnothing : checkMintQuotePaid (some (.ok [])) quote db = .ok ((), db) := by
    simp [checkMintQuotePaid, Tx.ite_ok, Tx.bind_ok, h.open.2]
  obtain ⟨-, rfl⟩ := Prod.mk.inj (hcheck.symm.trans (Tx.commit_eq_ok.mpr hnothing))
  obtain rfl := Option.some.inj (h.stored.byId.symm.trans hreloaded)
  rw [h.open.1] at hstate
  cases hstate

/-- Reports that credit the amount of the quote leave it credited with its amount. -/
theorem Waiting.reported (h : Waiting quote invoice db) (hpays : invoice.Pays quote amount received)
    (hmethod : quote.paymentMethod = .bolt11)
    (hsupported : quote.unit = .sat ∨ quote.unit = .msat) (hamount : Creditable amount)
    (hunit : toUnit received .msat quote.unit = .ok amount) {reports : List Report}
    (hsome : reports ≠ []) :
    Finds { quote with amountPaid := amount } (reported quote invoice reports db) := by
  cases reports with
  | nil => exact absurd rfl hsome
  | cons report reports =>
      have hfirst : Finds { quote with amountPaid := amount }
          (Report.apply quote invoice db report) := by
        cases report with
        | stream => exact h.stream hpays hunit hamount hsupported
        | status early => exact h.status hpays hamount hsupported early
      obtain ⟨-, hclosed⟩ := MintQuote.closed_of_paid hmethod h.unpaid.2 hamount.1
      have hrest := hfirst.reported_closed hclosed hpays reports
      simp only [Cdk.reported, List.foldl_cons] at hrest ⊢
      rw [hrest]
      exact hfirst

end Runs

/-- Take a quote of an invoice of CLN in satoshis or millisatoshi, and a payment of at least the
amount that it asks for. Both paths credit the same amount, and after any reports of it the quote
passes the checks of a request for its amount, exactly when the amount that was received rounds down
to the amount of the quote, which the columns hold. -/
theorem paid_quotes_issuable_iff (quote : MintQuote) (invoice : Cln.Invoice)
    (amount received : Amount) (db : Db) (hunit : quote.unit = .sat ∨ quote.unit = .msat)
    (hmethod : quote.paymentMethod = .bolt11) (hamount : quote.amount = some amount)
    (hpays : invoice.Pays quote amount received) (hwaiting : Waiting quote invoice db) :
    ((∀ early, ((reported quote invoice [.stream] db).mintQuotes.find? quote.id).map
          MintQuote.amountPaid =
        ((reported quote invoice [.status early] db).mintQuotes.find? quote.id).map
          MintQuote.amountPaid) ∧
      ∀ reports, reports ≠ [] → ∀ answer,
        PassesChecks answer quote.id amount (reported quote invoice reports db)) ↔
    Creditable amount ∧ toUnit received .msat quote.unit = .ok amount := by
  constructor
  · rintro ⟨-, hpasses⟩
    obtain ⟨credited, hcredited⟩ : ∃ credited : Amount,
        credited.toNat = received.toNat / msatPerUnit quote.unit :=
      ⟨⟨received.toNat / msatPerUnit quote.unit,
        Nat.lt_of_le_of_lt (Nat.div_le_self _ _) received.isLt⟩, rfl⟩
    rw [← toUnit_of_msat hunit] at hcredited
    by_cases hcreditable : Creditable credited
    · have hfinds := hwaiting.stream hpays hcredited hcreditable hunit
      obtain rfl := hfinds.eq_of_passes hmethod hwaiting.unpaid.2 hcreditable.1
        (hpasses [.stream] (by simp) none)
      exact ⟨hcreditable, hcredited⟩
    · have hpassed := hpasses [.stream] (by simp) (some (.ok []))
      rw [reported, List.foldl_cons, List.foldl_nil,
        hwaiting.stream_refused hpays hcredited hcreditable] at hpassed
      exact absurd hpassed hwaiting.not_passes
  · rintro ⟨hcreditable, hreceived⟩
    have hreported : ∀ {reports : List Report}, reports ≠ [] →
        Finds { quote with amountPaid := amount } (reported quote invoice reports db) :=
      hwaiting.reported hpays hmethod hunit hcreditable hreceived
    refine ⟨fun early => ?_, fun reports hsome answer => ?_⟩
    · have hstream := (hreported (List.cons_ne_nil .stream [])).byId
      have hstatus := (hreported (List.cons_ne_nil (.status early) [])).byId
      exact congrArg (Option.map MintQuote.amountPaid) (hstream.trans hstatus.symm)
    · exact (hreported hsome).passesChecks hmethod hamount hwaiting.unpaid.2 hcreditable.1 answer

/-! ## An overpayment -/

def sampleAskedQuote : MintQuote :=
  ⟨.uuid 0, some 8, .sat, "lnbc1", .paymentHash 1, none, .zero, .zero, .bolt11⟩

/-- The invoice of the quote, with what was received for it. -/
def sampleReceived (received : Amount) : Cln.Invoice :=
  ⟨1, true, some 1, some 8000, some received, false, none⟩

def sampleAskedDb : Db := { Db.empty with mintQuotes := ⟨[sampleAskedQuote], by decide⟩ }

theorem sample_pays {received : Amount} (h : 8000 ≤ received) :
    (sampleReceived received).Pays sampleAskedQuote 8 received :=
  ⟨rfl, rfl, rfl, ⟨8000, by decide, rfl, h⟩, rfl⟩

theorem sample_waiting (received : Amount) :
    Waiting sampleAskedQuote (sampleReceived received) sampleAskedDb := by
  refine ⟨⟨by decide, by decide⟩, by decide, fun row hrow => ?_⟩
  exact absurd hrow List.not_mem_nil

/-- Of nine satoshis that are received for an invoice of eight the stream credits nine and the check
eight. A request for eight fails after the stream, also when it checks the payment. -/
theorem overpaid_quote_stuck :
    (sampleReceived 9000).Pays sampleAskedQuote 8 9000 ∧
      Waiting sampleAskedQuote (sampleReceived 9000) sampleAskedDb ∧
      ((reported sampleAskedQuote (sampleReceived 9000) [.stream] sampleAskedDb).mintQuotes.find?
        (.uuid 0)).map MintQuote.amountPaid = some 9 ∧
      ((reported sampleAskedQuote (sampleReceived 9000) [.status false]
        sampleAskedDb).mintQuotes.find? (.uuid 0)).map MintQuote.amountPaid = some 8 ∧
      (processMintRequest sampleEnv [sampleKeyset]
        (some (.ok (Cln.checkIncomingPaymentStatus (.paymentHash 1) [sampleReceived 9000]))) 1
        ⟨.uuid 0, [sampleMessage 8 1], none⟩
        (reported sampleAskedQuote (sampleReceived 9000) [.stream] sampleAskedDb)).1 =
          .err .incorrectQuoteAmount := by
  refine ⟨sample_pays (by decide), sample_waiting 9000, ?_⟩
  decide +kernel

theorem paid_quotes_issuable_iff_rounded :
    toUnit 8999 .msat .sat = .ok 8 ∧
      PassesChecks none (.uuid 0) 8 (reported sampleAskedQuote (sampleReceived 8999)
        [.stream, .status true, .stream, .status false] sampleAskedDb) := by
  refine ⟨by decide, ?_⟩
  exact ((paid_quotes_issuable_iff sampleAskedQuote (sampleReceived 8999) 8 8999 sampleAskedDb
    (.inl rfl) rfl rfl (sample_pays (by decide)) (sample_waiting 8999)).mpr
    ⟨by decide, by decide⟩).2 _ (by simp) none

end Cdk
