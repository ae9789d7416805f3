import Cdk.Backends.Incoming
import Cdk.Backends.Lnd
import Cdk.Lib.Runs

/-!
# The cursor of a payment stream

A stream stores the index of a settled invoice before it hands the payment to
the mint, which credits it in a transaction of its own. After a crash the stream
continues behind the stored index.
-/

namespace Cdk

open Lib

/-! ## Streams -/

/-- What a stream takes from the settled invoices of its node: the number that the node has given to
an invoice, the request and the payment of the invoice, and its event, for which the node may have
to answer once more. The index in memory advances with every invoice. A start takes the stored
index, or the one of the invoice that the node lists last, and yields the index in memory and the
number of the invoices that the node does not send. -/
structure Feed (μ : Type) where
  number : μ → Nat
  request : μ → Option PaymentIdentifier
  paymentId : μ → String
  event : μ → Bool → Option WaitPaymentResponse
  advance : Nat → Nat → Nat
  refreshes : Bool
  resume : Bool → Option Nat → Option Nat → Nat → Option (Nat × Nat)
  event_names : ∀ {invoice answered response}, event invoice answered = some response →
    request invoice = some response.paymentIdentifier ∧ response.paymentId = paymentId invoice
  advance_next : ∀ {current next}, current < next → advance current next = next
  resume_bounds : ∀ {reads stored listed settled cursor},
    resume reads stored listed settled = some cursor →
    stored.getD 0 ≤ settled → listed.getD 0 ≤ settled →
    cursor.1 ≤ cursor.2 ∧ cursor.2 ≤ settled

namespace Cln

/-- The request that an invoice of the node is for. -/
def Invoice.request (invoice : Invoice) : Option PaymentIdentifier :=
  if invoice.offer then invoice.localOfferId.map PaymentIdentifier.offerId
  else some (.paymentHash invoice.paymentHash)

/-- `Cln::get_last_pay_index` at the start of a stream, which fails when an answer is missing. -/
def resume (reads : Bool) (stored listed : Option Nat) (_ : Nat) : Option (Nat × Nat) :=
  if reads then
    let last := (stored <|> listed).getD 0
    some (last, last)
  else none

/-- `Cln::wait_payment_event`. -/
def feed : Feed Invoice where
  number invoice := invoice.payIndex.getD 0
  request := Invoice.request
  paymentId invoice := paymentHashText invoice.paymentHash
  event invoice answered := streamPayment invoice (if answered then some (some invoice) else none)
  advance _ next := next
  refreshes := false
  resume := resume
  event_names := by
    intro invoice answered response h
    simp only [streamPayment, Option.bind_eq_bind, Option.bind_eq_some_iff, streamIdentifier] at h
    obtain ⟨amount, -, identifier, hidentifier, h⟩ := h
    cases Option.some.inj h
    refine ⟨?_, rfl⟩
    unfold Invoice.request
    cases hoffer : invoice.offer <;> cases answered <;> simp_all
  advance_next := fun _ => rfl
  resume_bounds := by
    intro reads stored listed settled cursor h hstored hlisted
    unfold resume at h
    split at h
    next =>
      cases Option.some.inj h
      refine ⟨Nat.le_refl _, ?_⟩
      cases stored with
      | none => exact hlisted
      | some n => exact hstored
    next => cases h

end Cln

namespace Lnd

/-- An update of an invoice that has been settled; its hash may not be one. -/
structure SettledInvoice where
  rHash : Option (BitVec 256)
  settleIndex : Nat
  amtPaidMsat : Int
deriving DecidableEq, Repr

/-- The payment of `Lnd::wait_payment_event` for a settled invoice. -/
def streamPayment (invoice : SettledInvoice) : Option WaitPaymentResponse :=
  invoice.rHash.map fun hash =>
    ⟨.paymentHash hash, ofI64 invoice.amtPaidMsat, .msat, paymentHashText hash⟩

/-- The subscription of the indices of `Lnd::get_last_indices`, zero when they cannot be read. The
node sends the invoices behind the index, or only new ones for an index of zero. -/
def resume (reads : Bool) (stored _ : Option Nat) (settled : Nat) : Option (Nat × Nat) :=
  let last := (if reads then stored else none).getD 0
  some (last, if last = 0 then settled else last)

/-- `Lnd::wait_payment_event`, which stores its index for every update. -/
def feed : Feed SettledInvoice where
  number := SettledInvoice.settleIndex
  request invoice := invoice.rHash.map PaymentIdentifier.paymentHash
  paymentId invoice := (invoice.rHash.map paymentHashText).getD ""
  event invoice _ := streamPayment invoice
  advance current next := max current next
  refreshes := true
  resume := resume
  event_names := by
    intro invoice _ response h
    obtain ⟨hash, hhash, rfl⟩ := Option.map_eq_some_iff.mp h
    simp [hhash]
  advance_next := fun h => Nat.max_eq_right (Nat.le_of_lt h)
  resume_bounds := by
    intro reads stored _ settled cursor h hstored _
    have hlast : (if reads then stored else none).getD 0 ≤ settled := by
      cases reads
      · exact Nat.zero_le _
      · exact hstored
    unfold resume at h
    generalize (if reads then stored else none).getD 0 = last at h hlast
    cases Option.some.inj h
    dsimp only
    split
    · exact ⟨hlast, Nat.le_refl _⟩
    · exact ⟨Nat.le_refl _, hlast⟩

end Lnd

/-! ## Runs of a stream -/

/-- A node, a stream of its payments, and the mint. The stream is not asked for the next payment
while the mint handles one. -/
structure Streaming (μ : Type) where
  settled : List μ
  stored : Option Nat
  cursor : Option (Nat × Nat)
  pending : Option (μ × WaitPaymentResponse)
  db : Db

inductive StreamMove (μ : Type) where
  /-- The node settles an invoice. -/
  | settle (invoice : μ)
  /-- The stream starts; the stored index may not be read. -/
  | start (reads : Bool) (listed : Option Nat)
  /-- The stream receives a settled invoice; its index may not be saved. -/
  | receive (saves answered : Bool)
  /-- The stream receives another update. -/
  | refresh (saves : Bool)
  /-- The mint handles the payment; the database may fail. -/
  | handle (works : Bool)
  /-- The mint stores a quote. -/
  | create (quote : MintQuote)
  /-- The mint checks a quote with the backend. -/
  | check (quoteId : QuoteId) (answer : StatusAnswer)
  /-- The stream ends, or the mint goes down. -/
  | crash

section Streams

variable {μ : Type}

/-- The invoice that the stream receives next. -/
def Streaming.next (s : Streaming μ) : Option μ :=
  match s.cursor, s.pending with
  | some cursor, none => s.settled[cursor.2]?
  | _, _ => none

/-- A mint that has started no stream, and a node that has settled nothing. -/
def Streaming.init (db : Db) : Streaming μ := ⟨[], none, none, none, db⟩

namespace Feed

variable (feed : Feed μ)

/-- The number of the settled invoice that the node lists last, if it is settled. -/
def listed (s : Streaming μ) (last : Option Nat) : Option Nat :=
  (last.bind fun i => s.settled[i]?).map feed.number

/-- The cursor of a stream that starts. -/
def started (s : Streaming μ) (reads : Bool) (last : Option Nat) : Option (Nat × Nat) :=
  feed.resume reads s.stored (feed.listed s last) s.settled.length

/-- Store the index of an invoice, then yield its event. -/
def received (s : Streaming μ) (saves answered : Bool) (current position : Nat) (invoice : μ) :
    Streaming μ :=
  let next := feed.advance current (feed.number invoice)
  { s with
    stored := if saves then some next else s.stored
    cursor := some (next, position + 1)
    pending := (feed.event invoice answered).map fun response => (invoice, response) }

def step (s : Streaming μ) : StreamMove μ → Streaming μ
  | .settle invoice =>
      -- the node numbers its settled invoices
      if feed.number invoice = s.settled.length + 1 then
        { s with settled := s.settled ++ [invoice] }
      else s
  | .start reads last =>
      if s.cursor = none then { s with cursor := feed.started s reads last } else s
  | .receive saves answered =>
      match s.cursor, s.next with
      | some cursor, some invoice => feed.received s saves answered cursor.1 cursor.2 invoice
      | _, _ => s
  | .refresh saves =>
      match s.cursor, s.pending with
      | some cursor, none =>
          if feed.refreshes && saves then { s with stored := some cursor.1 } else s
      | _, _ => s
  | .handle works =>
      match s.pending with
      | some (_, response) =>
          -- an error is logged, and the payment is not handled again
          { s with
            pending := none
            db := if works then (Tx.commit (handlePaymentNotification response) s.db).2 else s.db }
      | none => s
  | .create quote => { s with db := (Tx.commit (Db.addMintQuote quote) s.db).2 }
  | .check quoteId answer =>
      match s.db.mintQuotes.find? quoteId with
      | some quote => { s with db := (Tx.commit (checkMintQuotePaid answer quote) s.db).2 }
      | none => s
  | .crash => { s with cursor := none, pending := none }

/-! ## What a stored index promises -/

/-- The payment of an invoice is recorded on its quote, or it belongs to no quote. -/
def Accounted (db : Db) (invoice : μ) : Prop :=
  ∀ request ∈ feed.request invoice,
    ∀ quote ∈ db.mintQuotes.rows.find? (fun q => q.requestLookupId = request),
      feed.paymentId invoice ∈ Db.paymentIds quote.id db

instance (db : Db) (invoice : μ) : Decidable (feed.Accounted db invoice) :=
  inferInstanceAs (Decidable (∀ request ∈ feed.request invoice, ∀ quote ∈ _, _))

/-- Every invoice up to the stored index is accounted for. -/
def CursorBehind (s : Streaming μ) : Prop :=
  ∀ stored ∈ s.stored, ∀ invoice ∈ s.settled, feed.number invoice ≤ stored →
    feed.Accounted s.db invoice

instance (s : Streaming μ) : Decidable (feed.CursorBehind s) :=
  inferInstanceAs (Decidable (∀ stored ∈ s.stored, ∀ invoice ∈ s.settled, _))

/-- A stream that runs misses no payment: every settled invoice is accounted for, is being handled
or is still sent. -/
def MissesNone (s : Streaming μ) : Prop :=
  ∀ cursor ∈ s.cursor, ∀ invoice ∈ s.settled, feed.Accounted s.db invoice ∨
    s.pending.map Prod.fst = some invoice ∨ cursor.2 < feed.number invoice

end Feed

/-- A payment that the mint records when the database works. -/
def Recordable (db : Db) (response : WaitPaymentResponse) : Prop :=
  response.paymentAmount ≠ .zero ∧
    ∀ quote ∈ db.mintQuotes.rows.find? (fun q => q.requestLookupId = response.paymentIdentifier),
      quote.closed = false ∧ (∀ row ∈ db.payments.rows, row.paymentId ≠ response.paymentId) ∧
      ∃ amount paid, toUnit response.paymentAmount response.unit quote.unit = .ok amount ∧
        Creditable amount ∧ quote.amountPaid.checkedAdd amount = some paid ∧
        paid.toI64.isSome = true

namespace Feed

variable (feed : Feed μ)

/-- An index is saved only for an invoice that is accounted for. Where it is not saved, the payment
is yielded and recorded. A start skips only invoices that are accounted for, and a quote is stored
before its invoice is settled. -/
def Meets (s : Streaming μ) : StreamMove μ → Prop
  | .start reads last => s.cursor = none → ∀ cursor ∈ feed.started s reads last,
      ∀ invoice ∈ s.settled, s.stored.getD 0 < feed.number invoice →
        feed.number invoice ≤ cursor.2 → feed.Accounted s.db invoice
  | .receive saves answered => ∀ invoice ∈ s.next, feed.Accounted s.db invoice ∨
      saves = false ∧ (feed.event invoice answered).isSome = true
  | .handle works => ∀ payment ∈ s.pending, feed.Accounted s.db payment.1 ∨
      works = true ∧ Recordable s.db payment.2
  | .create quote => ∀ invoice ∈ s.settled, feed.request invoice ≠ some quote.requestLookupId
  | _ => True

end Feed

/-! ## Payments stay recorded -/

section Recorded

variable {feed : Feed μ} {db db' : Db} {invoice : μ} {response : WaitPaymentResponse}

/-- A credit keeps what is accounted for. -/
theorem Feed.Accounted.credited (h : feed.Accounted db invoice) (hcredited : Credited db db') :
    feed.Accounted db' invoice := by
  obtain ⟨quote, amount, paymentId, hcredit⟩ := hcredited
  obtain ⟨paid, -, hquotes⟩ := hcredit.quotes
  intro request hrequest found hfound
  rw [hquotes, find?_setPaid] at hfound
  obtain ⟨before, hbefore, rfl⟩ := Option.map_eq_some_iff.mp hfound
  have hmem := h request hrequest before hbefore
  rw [Db.setPaid_id]
  unfold Db.paymentIds at hmem ⊢
  rw [hcredit.payments, List.filter_append, List.map_append]
  exact List.mem_append_left _ hmem

theorem Feed.Accounted.credits (h : feed.Accounted db invoice)
    (hcredits : Relation.ReflTransGen Credited db db') : feed.Accounted db' invoice := by
  induction hcredits with
  | refl => exact h
  | tail _ hcredited ih => exact ih.credited hcredited

theorem Feed.Accounted.notified (h : feed.Accounted db invoice) :
    feed.Accounted (Tx.commit (handlePaymentNotification response) db).2 invoice := by
  refine Tx.commit_preserves (P := fun db => feed.Accounted db invoice) h ?_
  intro _ db' hok
  rcases handlePaymentNotification_ok hok with rfl | hcredited
  · exact h
  · exact h.credited hcredited

theorem Feed.Accounted.checked (h : feed.Accounted db invoice) {answer : StatusAnswer}
    {quote : MintQuote} :
    feed.Accounted (Tx.commit (checkMintQuotePaid answer quote) db).2 invoice :=
  Tx.commit_preserves (P := fun db => feed.Accounted db invoice) h
    fun _ _ hok => h.credits (checkMintQuotePaid_ok hok)

/-- A quote for another request keeps what is accounted for. -/
theorem Feed.Accounted.created (h : feed.Accounted db invoice) {quote : MintQuote}
    (hnew : feed.request invoice ≠ some quote.requestLookupId) :
    feed.Accounted (Tx.commit (Db.addMintQuote quote) db).2 invoice := by
  refine Tx.commit_preserves (P := fun db => feed.Accounted db invoice) h ?_
  intro _ db' hok
  simp only [Db.addMintQuote, Tx.bind_ok, Tx.read_ok, Tx.ensure_ok, Tx.writeOr_ok,
    Option.map_eq_some_iff] at hok
  obtain ⟨_, _, ⟨-, rfl⟩, _, _, ⟨-, rfl⟩, t, ht, rfl⟩ := hok
  obtain ⟨-, hrows⟩ := Table.insert?_eq_some.mp ht
  intro request hrequest found hfound
  dsimp only at hfound
  rw [hrows, List.find?_append, Option.mem_def, Option.or_eq_some_iff] at hfound
  rcases hfound with hfound | ⟨-, hfound⟩
  · exact h request hrequest found hfound
  · have hlookup := List.find?_some hfound
    obtain rfl := List.mem_singleton.mp (List.mem_of_find?_eq_some hfound)
    rw [Option.mem_def.mp hrequest, ne_eq, Option.some.injEq] at hnew
    exact absurd (of_decide_eq_true hlookup).symm hnew

/-- A payment that the mint records is accounted for. -/
theorem Recordable.accounted (h : Recordable db response) {answered : Bool}
    (hevent : feed.event invoice answered = some response) :
    feed.Accounted (Tx.commit (handlePaymentNotification response) db).2 invoice := by
  obtain ⟨hpositive, hquote⟩ := h
  obtain ⟨hrequest, hid⟩ := feed.event_names hevent
  cases hfound : db.mintQuotes.rows.find?
      (fun q => q.requestLookupId = response.paymentIdentifier) with
  | none =>
      -- the payment belongs to no quote
      apply Feed.Accounted.notified
      intro request hr quote hq
      rw [hrequest, Option.mem_some] at hr
      rw [← hr, hfound] at hq
      cases hq
  | some quote =>
      obtain ⟨hopen, hfresh, amount, paid, hunit, hamount, hpaid, hcolumn⟩ := hquote quote hfound
      obtain ⟨t, hrows, hok⟩ := handlePaymentNotification_credit hpositive hfound hopen hfresh hunit
        hamount hpaid hcolumn
      rw [Tx.commit_eq_ok.mpr hok]
      intro request hr found hq
      rw [hrequest, Option.mem_some] at hr
      rw [← hr, find?_setPaid, hfound, Option.map_some, Option.mem_some] at hq
      rw [← hq, Db.setPaid_id, ← hid]
      simp [Db.paymentIds, hrows]

end Recorded

/-! ## The invariant -/

/-- The cursor of a stream and the stored index are behind the node, and the invoices that they have
passed are accounted for or being handled. -/
structure Feed.Sound (feed : Feed μ) (s : Streaming μ) : Prop where
  numbered : ∀ i invoice, s.settled[i]? = some invoice → feed.number invoice = i + 1
  stored_le : s.stored.getD 0 ≤ s.settled.length
  cursor_le : ∀ cursor ∈ s.cursor, cursor.1 ≤ cursor.2 ∧ cursor.2 ≤ s.settled.length
  pending_event : ∀ payment ∈ s.pending, ∃ answered,
    feed.event payment.1 answered = some payment.2
  behind : feed.CursorBehind s
  misses : feed.MissesNone s

namespace Feed.Sound

variable {feed : Feed μ} {s : Streaming μ} {invoice : μ}

theorem init (feed : Feed μ) (db : Db) : feed.Sound (Streaming.init db) where
  numbered := fun _ _ h => by simp [Streaming.init] at h
  stored_le := Nat.le_refl _
  cursor_le := fun _ h => by cases h
  pending_event := fun _ h => by cases h
  behind := fun _ h => by cases h
  misses := fun _ h => by cases h

theorem number_le (h : feed.Sound s) (hmem : invoice ∈ s.settled) :
    0 < feed.number invoice ∧ feed.number invoice ≤ s.settled.length := by
  obtain ⟨i, hi⟩ := List.mem_iff_getElem?.mp hmem
  obtain ⟨hlt, -⟩ := List.getElem?_eq_some_iff.mp hi
  have hnumber := h.numbered i invoice hi
  omega

/-- An invoice up to the stored index is accounted for. -/
theorem accounted_of_le (h : feed.Sound s) (hmem : invoice ∈ s.settled)
    (hle : feed.number invoice ≤ s.stored.getD 0) : feed.Accounted s.db invoice := by
  have hpos := (h.number_le hmem).1
  cases hstored : s.stored with
  | none => simp [hstored] at hle; omega
  | some stored => exact h.behind stored hstored invoice hmem (by simpa [hstored] using hle)

/-- A new invoice is behind every cursor. -/
theorem settle (h : feed.Sound s) (hnumber : feed.number invoice = s.settled.length + 1) :
    feed.Sound { s with settled := s.settled ++ [invoice] } where
  numbered := by
    intro i found hfound
    rw [List.getElem?_append] at hfound
    split at hfound
    next => exact h.numbered i found hfound
    next hge =>
      obtain ⟨hi, rfl⟩ : i = s.settled.length ∧ invoice = found := by
        obtain ⟨hlt, heq⟩ := List.getElem?_eq_some_iff.mp hfound
        rw [List.length_singleton] at hlt
        exact ⟨by omega, by simpa using heq⟩
      rw [hi, hnumber]
  stored_le := by
    have hle := h.stored_le
    simp only [List.length_append, List.length_singleton]
    omega
  cursor_le := by
    intro cursor hcursor
    have hle := h.cursor_le cursor hcursor
    simp only [List.length_append, List.length_singleton]
    omega
  pending_event := h.pending_event
  behind := by
    intro stored hstored found hfound hle
    rcases List.mem_append.mp hfound with hfound | hfound
    · exact h.behind stored hstored found hfound hle
    · have hbound : stored ≤ s.settled.length := by
        have hbound := h.stored_le
        rwa [Option.mem_def.mp hstored] at hbound
      obtain rfl := List.mem_singleton.mp hfound
      omega
  misses := by
    intro cursor hcursor found hfound
    rcases List.mem_append.mp hfound with hfound | hfound
    · exact h.misses cursor hcursor found hfound
    · obtain rfl := List.mem_singleton.mp hfound
      have hle := h.cursor_le cursor hcursor
      exact .inr (.inr (by omega))

/-- A start that skips only invoices that are accounted for. -/
theorem start (h : feed.Sound s) (hidle : s.cursor = none) {reads : Bool} {last : Option Nat}
    (hmeets : feed.Meets s (.start reads last)) :
    feed.Sound { s with cursor := feed.started s reads last } where
  numbered := h.numbered
  stored_le := h.stored_le
  cursor_le := by
    intro cursor hcursor
    refine feed.resume_bounds hcursor h.stored_le ?_
    cases hlisted : last.bind fun i => s.settled[i]? with
    | none => simp [listed, hlisted]
    | some found =>
        obtain ⟨i, -, hi⟩ := Option.bind_eq_some_iff.mp hlisted
        have hle := (h.number_le (List.mem_of_getElem? hi)).2
        simpa [listed, hlisted] using hle
  pending_event := h.pending_event
  behind := h.behind
  misses := by
    intro cursor hcursor found hfound
    rcases Nat.lt_or_ge cursor.2 (feed.number found) with hlt | hle
    · exact .inr (.inr hlt)
    · rcases Nat.lt_or_ge (s.stored.getD 0) (feed.number found) with hskipped | hstored
      · exact .inl (hmeets hidle cursor hcursor found hfound hskipped hle)
      · exact .inl (h.accounted_of_le hfound hstored)

/-- Of the invoices that the cursor has passed, only the one that is being handled may be open. -/
theorem accounted_of_passed (h : feed.Sound s) {cursor : Nat × Nat} (hcursor : cursor ∈ s.cursor)
    (hfree : s.pending = none) (hmem : invoice ∈ s.settled)
    (hle : feed.number invoice ≤ cursor.2) : feed.Accounted s.db invoice := by
  rcases h.misses cursor hcursor invoice hmem with haccounted | hpending | hlt
  · exact haccounted
  · simp [hfree] at hpending
  · omega

theorem next_eq_some {cursor : Nat × Nat} (hcursor : cursor ∈ s.cursor)
    (hnext : s.next = some invoice) :
    s.pending = none ∧ s.settled[cursor.2]? = some invoice := by
  unfold Streaming.next at hnext
  rw [Option.mem_def.mp hcursor] at hnext
  cases hpending : s.pending with
  | none => exact ⟨rfl, by simpa [hpending] using hnext⟩
  | some payment => simp [hpending] at hnext

/-- The invoice that the cursor passes next is the only one up to it that may be open. -/
theorem passed_cases (h : feed.Sound s) {cursor : Nat × Nat} (hcursor : cursor ∈ s.cursor)
    (hfree : s.pending = none) (hsettled : s.settled[cursor.2]? = some invoice) {found : μ}
    (hfound : found ∈ s.settled) (hle : feed.number found ≤ cursor.2 + 1) :
    feed.Accounted s.db found ∨ found = invoice := by
  obtain ⟨i, hi⟩ := List.mem_iff_getElem?.mp hfound
  rcases Nat.lt_or_ge cursor.2 (feed.number found) with hgt | hpassed
  · have hnumber := h.numbered i found hi
    obtain rfl : i = cursor.2 := by omega
    exact .inr (Option.some.inj (hi.symm.trans hsettled))
  · exact .inl (h.accounted_of_passed hcursor hfree hfound hpassed)

/-- The next invoice is accounted for, or its index is not saved and its payment is handled. -/
theorem receive (h : feed.Sound s) {saves answered : Bool} {cursor : Nat × Nat}
    (hcursor : cursor ∈ s.cursor) (hnext : s.next = some invoice)
    (hmeets : feed.Meets s (.receive saves answered)) :
    feed.Sound (feed.received s saves answered cursor.1 cursor.2 invoice) := by
  obtain ⟨hfree, hsettled⟩ := next_eq_some hcursor hnext
  have hnumber := h.numbered cursor.2 invoice hsettled
  have hcursor_le := h.cursor_le cursor hcursor
  have hadvance : feed.advance cursor.1 (feed.number invoice) = cursor.2 + 1 := by
    rw [hnumber]
    exact feed.advance_next (by omega)
  have hlt : cursor.2 < s.settled.length := (List.getElem?_eq_some_iff.mp hsettled).1
  have hpassed : ∀ found ∈ s.settled, feed.number found ≤ cursor.2 + 1 →
      feed.Accounted s.db found ∨ found = invoice :=
    fun _ => h.passed_cases hcursor hfree hsettled
  have hreceived := hmeets invoice hnext
  refine ⟨h.numbered, ?_, ?_, ?_, ?_, ?_⟩
  · cases saves
    · exact h.stored_le
    · simp only [received, hadvance]
      exact hlt
  · intro moved hmoved
    obtain rfl := Option.some.inj hmoved
    simp only [received, hadvance]
    exact ⟨Nat.le_refl _, hlt⟩
  · intro payment hpayment
    obtain ⟨response, hevent, rfl⟩ := Option.map_eq_some_iff.mp hpayment
    exact ⟨answered, hevent⟩
  · intro stored hstored found hfound hle
    cases saves with
    | false => exact h.behind stored hstored found hfound hle
    | true =>
        obtain rfl := Option.some.inj hstored
        rw [hadvance] at hle
        rcases hpassed found hfound hle with haccounted | rfl
        · exact haccounted
        · exact hreceived.resolve_right fun hlost => Bool.noConfusion hlost.1
  · intro moved hmoved found hfound
    obtain rfl := Option.some.inj hmoved
    rcases Nat.lt_or_ge (cursor.2 + 1) (feed.number found) with hgt | hle
    · exact .inr (.inr hgt)
    · rcases hpassed found hfound hle with haccounted | rfl
      · exact .inl haccounted
      · rcases hreceived with haccounted | ⟨-, hevent⟩
        · exact .inl haccounted
        · obtain ⟨response, hevent⟩ := Option.isSome_iff_exists.mp hevent
          exact .inr (.inl (by simp [received, hevent]))

/-- Another update stores the index of the stream. -/
theorem refresh (h : feed.Sound s) {cursor : Nat × Nat} (hcursor : cursor ∈ s.cursor)
    (hfree : s.pending = none) : feed.Sound { s with stored := some cursor.1 } := by
  have hle := h.cursor_le cursor hcursor
  refine ⟨h.numbered, ?_, h.cursor_le, h.pending_event, ?_, h.misses⟩
  · exact hle.1.trans hle.2
  · intro stored hstored found hfound hnumber
    obtain rfl := Option.some.inj hstored
    exact h.accounted_of_passed hcursor hfree hfound (hnumber.trans hle.1)

/-- A database that accounts for more keeps the invariant, also when the payment that was handled
is accounted for in it. -/
theorem credited (h : feed.Sound s) {db : Db} {pending : Option (μ × WaitPaymentResponse)}
    (hkeeps : ∀ found ∈ s.settled, feed.Accounted s.db found → feed.Accounted db found)
    (hpending : pending = s.pending ∨
      pending = none ∧ ∀ payment ∈ s.pending, feed.Accounted db payment.1) :
    feed.Sound { s with pending := pending, db := db } := by
  refine ⟨h.numbered, h.stored_le, h.cursor_le, ?_, ?_, ?_⟩
  · intro payment hpayment
    rcases hpending with rfl | ⟨rfl, -⟩
    · exact h.pending_event payment hpayment
    · cases hpayment
  · intro stored hstored found hfound hle
    exact hkeeps found hfound (h.behind stored hstored found hfound hle)
  · intro cursor hcursor found hfound
    rcases h.misses cursor hcursor found hfound with haccounted | hhandled | hlt
    · exact .inl (hkeeps found hfound haccounted)
    · rcases hpending with rfl | ⟨rfl, haccounted⟩
      · exact .inr (.inl hhandled)
      · obtain ⟨payment, hpayment, rfl⟩ := Option.map_eq_some_iff.mp hhandled
        exact .inl (haccounted payment hpayment)
    · exact .inr (.inr hlt)

theorem crash (h : feed.Sound s) : feed.Sound { s with cursor := none, pending := none } where
  numbered := h.numbered
  stored_le := h.stored_le
  cursor_le := fun _ hcursor => by cases hcursor
  pending_event := fun _ hpayment => by cases hpayment
  behind := h.behind
  misses := fun _ hcursor => by cases hcursor

/-- Handling a payment that is accounted for, or that is recorded. -/
theorem handle (h : feed.Sound s) {works : Bool} (hmeets : feed.Meets s (.handle works))
    {payment : μ × WaitPaymentResponse} (hpending : s.pending = some payment) :
    feed.Sound { s with
      pending := none
      db := if works then (Tx.commit (handlePaymentNotification payment.2) s.db).2 else s.db } := by
  have hkeeps : ∀ found, feed.Accounted s.db found → feed.Accounted
      (if works then (Tx.commit (handlePaymentNotification payment.2) s.db).2 else s.db) found := by
    intro found haccounted
    cases works
    · exact haccounted
    · exact haccounted.notified
  refine h.credited (fun found _ => hkeeps found) (.inr ⟨rfl, ?_⟩)
  intro handled hhandled
  obtain rfl := Option.some.inj (hpending.symm.trans hhandled)
  rcases hmeets payment hpending with haccounted | ⟨rfl, hrecordable⟩
  · exact hkeeps _ haccounted
  · obtain ⟨answered, hevent⟩ := h.pending_event payment hpending
    exact hrecordable.accounted hevent

/-- Every step that meets the condition keeps the invariant. -/
theorem step (h : feed.Sound s) {move : StreamMove μ} (hmeets : feed.Meets s move) :
    feed.Sound (feed.step s move) := by
  cases move with
  | settle invoice =>
      dsimp only [Feed.step]
      split
      · exact h.settle ‹_›
      · exact h
  | start reads last =>
      dsimp only [Feed.step]
      split
      · exact h.start ‹_› hmeets
      · exact h
  | receive saves answered =>
      dsimp only [Feed.step]
      split
      next cursor invoice hcursor hnext => exact h.receive hcursor hnext hmeets
      next => exact h
  | refresh saves =>
      dsimp only [Feed.step]
      split
      next cursor hcursor hfree =>
        split
        · exact h.refresh hcursor hfree
        · exact h
      next => exact h
  | handle works =>
      dsimp only [Feed.step]
      split
      next _ response hpending => exact h.handle hmeets hpending
      next => exact h
  | create quote =>
      exact h.credited (fun found hfound haccounted => haccounted.created (hmeets found hfound))
        (.inl rfl)
  | check quoteId answer =>
      dsimp only [Feed.step]
      split
      · exact h.credited (fun _ _ haccounted => haccounted.checked) (.inl rfl)
      · exact h
  | crash => exact h.crash

end Feed.Sound

end Streams

/-! ## Runs -/

/-- In every run of the stream of either backend whose steps meet the condition, every settled
invoice up to the stored index is accounted for, and a stream that has started misses no payment. -/
theorem payment_cursor_behind (db : Db) :
    (∀ moves, Along Cln.feed.step Cln.feed.Meets (Streaming.init db) moves →
      Cln.feed.CursorBehind (run Cln.feed.step (Streaming.init db) moves) ∧
        Cln.feed.MissesNone (run Cln.feed.step (Streaming.init db) moves)) ∧
    (∀ moves, Along Lnd.feed.step Lnd.feed.Meets (Streaming.init db) moves →
      Lnd.feed.CursorBehind (run Lnd.feed.step (Streaming.init db) moves) ∧
        Lnd.feed.MissesNone (run Lnd.feed.step (Streaming.init db) moves)) := by
  have hrun : ∀ {μ : Type} (feed : Feed μ) (moves : List (StreamMove μ)),
      Along feed.step feed.Meets (Streaming.init db) moves →
      feed.Sound (run feed.step (Streaming.init db) moves) :=
    fun feed _ => invariant_along (fun _ _ h hmeets => h.step hmeets) (.init feed db)
  refine ⟨fun moves h => ?_, fun moves h => ?_⟩
  · exact ⟨(hrun Cln.feed moves h).behind, (hrun Cln.feed moves h).misses⟩
  · exact ⟨(hrun Lnd.feed moves h).behind, (hrun Lnd.feed moves h).misses⟩

/-! ## A payment that is lost -/

/-- The stream receives a payment, and the mint goes down before it is handled. -/
def sampleLost {μ : Type} (invoice : μ) : List (StreamMove μ) :=
  [.start true none, .settle invoice, .receive true true, .crash, .start true none]

/-- An invoice of LND for the same quote. -/
def sampleSettledInvoice : Lnd.SettledInvoice := ⟨some 1, 1, 8000⟩

/-- The index of the payment is stored, and the stream continues behind it. The payment is never
recorded. -/
theorem payment_cursor_ahead :
    ¬ Cln.feed.CursorBehind (run Cln.feed.step (Streaming.init sampleAskedDb)
        (sampleLost (sampleReceived 8000))) ∧
      (run Cln.feed.step (Streaming.init sampleAskedDb)
        (sampleLost (sampleReceived 8000))).cursor = some (1, 1) ∧
      ¬ Lnd.feed.CursorBehind (run Lnd.feed.step (Streaming.init sampleAskedDb)
        (sampleLost sampleSettledInvoice)) ∧
      (run Lnd.feed.step (Streaming.init sampleAskedDb)
        (sampleLost sampleSettledInvoice)).cursor = some (1, 1) := by
  decide +kernel

/-- The mint checks the quote before the stream receives the payment. -/
def sampleChecked : List (StreamMove Cln.Invoice) :=
  [.start true none, .settle (sampleReceived 8000),
    .check (.uuid 0)
      (some (.ok (Cln.checkIncomingPaymentStatus (.paymentHash 1) [sampleReceived 8000]))),
    .receive true true, .crash, .start true none]

theorem payment_cursor_behind_checked :
    (run Cln.feed.step (Streaming.init sampleAskedDb) sampleChecked).stored = some 1 ∧
      Cln.feed.CursorBehind (run Cln.feed.step (Streaming.init sampleAskedDb) sampleChecked) := by
  refine ⟨by decide +kernel, ((payment_cursor_behind sampleAskedDb).1 sampleChecked ?_).1⟩
  refine ⟨?_, trivial, trivial, ?_, trivial, ?_, trivial⟩
  · dsimp only [Feed.Meets]
    decide +kernel
  · dsimp only [Feed.Meets]
    decide +kernel
  · dsimp only [Feed.Meets]
    decide +kernel

end Cdk
