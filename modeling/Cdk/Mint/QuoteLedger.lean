import Cdk.Mint.DoubleSpend

/-!
# The ledger of the mint quotes

Every quote has issued at most what it was paid, what it was paid is the sum of
the payments recorded for it, and what it has issued is the sum of the
signatures stored for it. Change and swaps sign rows of other quotes or of none:
an unsigned row never carries the identifier of a mint quote, and no identifier
names both a mint quote and a melt quote.
-/

namespace Cdk

open Lib

/-- The amount of a payment if it belongs to a quote. -/
def paymentFor (id : QuoteId) (row : PaymentRow) : Nat :=
  if row.quoteId = id then row.amount.toNat else 0

/-- The amount of a row if it is a signature for a quote. -/
def issuedFor (id : QuoteId) : SignatureRow → Nat :=
  Db.signedFor fun quoteId => quoteId = some id

/-- The counters of the mint quotes agree with the tables. -/
structure Ledger (db : Db) : Prop where
  covered : ∀ q ∈ db.mintQuotes.rows, q.amountIssued.toNat ≤ q.amountPaid.toNat
  paid : ∀ q ∈ db.mintQuotes.rows, q.amountPaid.toNat = db.payments.sum (paymentFor q.id)
  issued : ∀ q ∈ db.mintQuotes.rows,
    q.amountIssued.toNat = db.blindSignatures.sum (issuedFor q.id)
  payments : ∀ row ∈ db.payments.rows, ∃ q ∈ db.mintQuotes.rows, q.id = row.quoteId
  unsigned : ∀ r ∈ db.blindSignatures.rows, r.c = none →
    ∀ q ∈ db.mintQuotes.rows, r.quoteId ≠ some q.id
  known : ∀ r ∈ db.blindSignatures.rows, ∀ i, r.quoteId = some i →
    (∃ q ∈ db.mintQuotes.rows, q.id = i) ∨ db.meltState i ≠ none

/-- Identifiers of quotes are below the counter and name one quote. -/
structure QuoteIds (w : World) : Prop where
  mint : ∀ q ∈ w.db.mintQuotes.rows, ∃ n < w.nextId, q.id = .uuid n
  melt : ∀ i, w.db.meltState i ≠ none → ∃ n < w.nextId, i = .uuid n
  disjoint : ∀ q ∈ w.db.mintQuotes.rows, w.db.meltState q.id = none

/-! ## Transactions that leave the mint quotes alone -/

/-- The mint quotes and their payments are untouched, and only rows of other quotes are signed. -/
structure QuotesKept (db db' : Db) : Prop where
  quotes : db'.mintQuotes = db.mintQuotes
  payments : db'.payments = db.payments
  issued : ∀ q ∈ db.mintQuotes.rows,
    db'.blindSignatures.sum (issuedFor q.id) = db.blindSignatures.sum (issuedFor q.id)
  unsigned : ∀ r ∈ db'.blindSignatures.rows, r.c = none → r ∈ db.blindSignatures.rows ∨
    ∀ q ∈ db.mintQuotes.rows, r.quoteId ≠ some q.id
  known : ∀ r ∈ db'.blindSignatures.rows, ∀ i, r.quoteId = some i →
    (∃ r₀ ∈ db.blindSignatures.rows, r₀.quoteId = some i) ∨ db'.meltState i ≠ none
  melts : ∀ i, db.meltState i ≠ none → db'.meltState i ≠ none

section Kept

variable {env : Env} {db db' db'' : Db}

theorem Ledger.of_kept (h : Ledger db) (hk : QuotesKept db db') : Ledger db' where
  covered q hq := h.covered q (hk.quotes ▸ hq)
  paid q hq := by
    rw [hk.payments]
    exact h.paid q (hk.quotes ▸ hq)
  issued q hq := by
    rw [hk.issued q (hk.quotes ▸ hq)]
    exact h.issued q (hk.quotes ▸ hq)
  payments row hrow := by
    rw [hk.quotes]
    exact h.payments row (hk.payments ▸ hrow)
  unsigned r hr hc q hq := by
    rcases hk.unsigned r hr hc with hr | hother
    · exact h.unsigned r hr hc q (hk.quotes ▸ hq)
    · exact hother q (hk.quotes ▸ hq)
  known r hr i hi := by
    rcases hk.known r hr i hi with ⟨r₀, hr₀, hi₀⟩ | hmelt
    · rw [hk.quotes]
      exact (h.known r₀ hr₀ i hi₀).imp_right (hk.melts i)
    · exact .inr hmelt

namespace QuotesKept

theorem of_eq (hq : db'.mintQuotes = db.mintQuotes) (hp : db'.payments = db.payments)
    (hb : db'.blindSignatures = db.blindSignatures) (hm : db'.meltState = db.meltState) :
    QuotesKept db db' where
  quotes := hq
  payments := hp
  issued q _ := by rw [hb]
  unsigned r hr _ := .inl (hb ▸ hr)
  known r hr i hi := .inl ⟨r, hb ▸ hr, hi⟩
  melts i hi := hm ▸ hi

theorem trans (h : QuotesKept db db') (h' : QuotesKept db' db'') : QuotesKept db db'' where
  quotes := h'.quotes.trans h.quotes
  payments := h'.payments.trans h.payments
  issued q hq := (h'.issued q (h.quotes ▸ hq)).trans (h.issued q hq)
  unsigned r hr hc := by
    rcases h'.unsigned r hr hc with hr | hother
    · exact h.unsigned r hr hc
    · exact .inr (h.quotes ▸ hother)
  known r hr i hi := by
    rcases h'.known r hr i hi with ⟨r₀, hr₀, hi₀⟩ | hmelt
    · exact (h.known r₀ hr₀ i hi₀).imp_right (h'.melts i)
    · exact .inr hmelt
  melts i hi := h'.melts i (h.melts i hi)

/-- Unsigned rows are appended for a melt or for no quote. -/
theorem of_messages {quoteId : Option QuoteId} {operation : Operation}
    {messages : List BlindedMessage} (hq : db'.mintQuotes = db.mintQuotes)
    (hp : db'.payments = db.payments)
    (hb : db'.blindSignatures.rows = db.blindSignatures.rows ++
      Db.messageRows quoteId operation messages)
    (hm : ∀ i, db.meltState i ≠ none → db'.meltState i ≠ none)
    (hother : ∀ q ∈ db.mintQuotes.rows, quoteId ≠ some q.id)
    (hmelt : ∀ i, quoteId = some i → db'.meltState i ≠ none) : QuotesKept db db' where
  quotes := hq
  payments := hp
  issued q _ := by
    rw [Table.sum_of_rows _ hb]
    simp [Db.messageRows, issuedFor, Db.signedFor, Function.comp_def]
  unsigned r hr _ := by
    rw [hb, List.mem_append] at hr
    rcases hr with hr | hr
    · exact .inl hr
    · obtain ⟨m, -, rfl⟩ := List.mem_map.mp hr
      exact .inr hother
  known r hr i hi := by
    rw [hb, List.mem_append] at hr
    rcases hr with hr | hr
    · exact .inl ⟨r, hr, hi⟩
    · obtain ⟨m, -, rfl⟩ := List.mem_map.mp hr
      exact .inr (hmelt i hi)
  melts := hm

/-- Unsigned rows are deleted. -/
theorem of_deleted {p : SignatureRow → Bool} (hq : db'.mintQuotes = db.mintQuotes)
    (hp : db'.payments = db.payments)
    (hb : db'.blindSignatures = db.blindSignatures.delete p)
    (hm : ∀ i, db.meltState i ≠ none → db'.meltState i ≠ none)
    (hunsigned : ∀ r, p r = true → r.c = none) : QuotesKept db db' where
  quotes := hq
  payments := hp
  issued q _ := by
    rw [hb]
    exact Table.sum_delete_eq fun r _ hr => Db.signedFor_unsigned (hunsigned r hr)
  unsigned r hr _ := by
    rw [hb, Table.mem_delete] at hr
    exact .inl hr.1
  known r hr i hi := by
    rw [hb, Table.mem_delete] at hr
    exact .inl ⟨r, hr.1, hi⟩
  melts := hm

/-- Rows are signed for a melt or for no quote. -/
theorem of_signed {messages : List PublicKey} {signatures : List BlindSignature}
    {quoteId : Option QuoteId} {u : Unit} (h : Ledger db)
    (hadd : Db.addBlindSignatures messages signatures quoteId db = .ok (u, db'))
    (hother : ∀ q ∈ db.mintQuotes.rows, quoteId ≠ some q.id)
    (hmelt : ∀ i, quoteId = some i → db.meltState i ≠ none) : QuotesKept db db' := by
  have hrows := Db.addBlindSignatures_rows hadd
  obtain ⟨t, rfl⟩ := Db.addBlindSignatures_frame hadd
  refine ⟨rfl, rfl, ?_, ?_, ?_, fun _ hi => hi⟩
  · intro q hq
    have hsum := Db.addBlindSignatures_sum (p := fun i => i = some q.id) (b := false) hadd
      (by simpa using hother q hq) (by
        intro r hr _ hc
        simpa using h.unsigned r hr hc q hq)
    simpa [issuedFor] using hsum
  · intro r hr hc
    rcases hrows.origin r hr with hr | ⟨hs, -⟩
    · exact .inl hr
    · simp [hc] at hs
  · intro r hr i hi
    rcases hrows.origin r hr with hr | ⟨-, -, ⟨hq, -⟩ | ⟨r₀, hr₀, -, -, hq, -⟩⟩
    · exact .inl ⟨r, hr, hi⟩
    · exact .inr (hmelt i (hq ▸ hi))
    · exact .inl ⟨r₀, hr₀, hq.trans hi⟩

end QuotesKept

end Kept

/-! ## Credits and debits -/

section Counters

variable {db db' : Db}

theorem Credit.meltState {quote : MintQuote} {amount : Amount} {paymentId : String}
    (h : Credit quote amount paymentId db db') : db'.meltState = db.meltState :=
  Db.meltState_congr (by rw [h.frame])

theorem Issue.meltState {quote : MintQuote} {total : Nat} (h : Issue quote total db db') :
    db'.meltState = db.meltState :=
  Db.meltState_congr (by rw [h.frame])

theorem Ledger.credit (h : Ledger db) {quote : MintQuote} {amount : Amount} {paymentId : String}
    (hc : Credit quote amount paymentId db db') : Ledger db' := by
  obtain ⟨paid, hpaid, hquotes⟩ := hc.quotes
  have hsigs : db'.blindSignatures = db.blindSignatures := by rw [hc.frame]
  have hmelt := hc.meltState
  have hmem : ∀ q' ∈ db'.mintQuotes.rows, ∃ q ∈ db.mintQuotes.rows,
      q' = Db.setPaid quote.id paid q := by
    intro q' hq'
    rw [hquotes] at hq'
    obtain ⟨q, hq, rfl⟩ := List.mem_map.mp hq'
    exact ⟨q, hq, rfl⟩
  have hid : ∀ q ∈ db.mintQuotes.rows, ∃ q' ∈ db'.mintQuotes.rows, q'.id = q.id := by
    intro q hq
    refine ⟨Db.setPaid quote.id paid q, ?_, Db.setPaid_id _ _ _⟩
    rw [hquotes]
    exact List.mem_map_of_mem hq
  have hsum : ∀ i, db'.payments.sum (paymentFor i) = db.payments.sum (paymentFor i) +
      if quote.id = i then amount.toNat else 0 := by
    intro i
    rw [Table.sum_of_rows _ hc.payments]
    simp [paymentFor]
  have hissued : ∀ q, (Db.setPaid quote.id paid q).amountIssued = q.amountIssued := by
    intro q
    unfold Db.setPaid
    split <;> rfl
  constructor
  · intro q' hq'
    obtain ⟨q, hq, rfl⟩ := hmem q' hq'
    rw [hissued]
    apply (h.covered q hq).trans
    unfold Db.setPaid
    split
    next heq =>
      have := Table.eq_of_key hq hc.mem heq
      subst this
      simp only [hpaid]
      omega
    next => exact Nat.le_refl _
  · intro q' hq'
    obtain ⟨q, hq, rfl⟩ := hmem q' hq'
    rw [Db.setPaid_id, hsum, ← h.paid q hq]
    unfold Db.setPaid
    split
    next heq =>
      have := Table.eq_of_key hq hc.mem heq
      subst this
      simp [hpaid]
    next hne => simp [Ne.symm hne]
  · intro q' hq'
    obtain ⟨q, hq, rfl⟩ := hmem q' hq'
    rw [hissued, Db.setPaid_id, hsigs]
    exact h.issued q hq
  · intro row hrow
    rw [hc.payments, List.mem_append, List.mem_singleton] at hrow
    rcases hrow with hrow | rfl
    · obtain ⟨q, hq, hq'⟩ := h.payments row hrow
      obtain ⟨q', hmem', hid'⟩ := hid q hq
      exact ⟨q', hmem', hid'.trans hq'⟩
    · exact hid quote hc.mem
  · intro r hr hnone q' hq'
    obtain ⟨q, hq, rfl⟩ := hmem q' hq'
    rw [Db.setPaid_id]
    exact h.unsigned r (hsigs ▸ hr) hnone q hq
  · intro r hr i hi
    rw [hmelt]
    apply (h.known r (hsigs ▸ hr) i hi).imp_left
    rintro ⟨q, hq, rfl⟩
    exact hid q hq

theorem Ledger.credits (h : Ledger db) (hc : Relation.ReflTransGen Credited db db') :
    Ledger db' := by
  induction hc with
  | refl => exact h
  | tail _ hstep ih =>
      obtain ⟨quote, amount, paymentId, hcredit⟩ := hstep
      exact ih.credit hcredit

theorem Ledger.issue (h : Ledger db) {quote : MintQuote} {total : Nat}
    (hi : Issue quote total db db') : Ledger db' := by
  obtain ⟨issued, hissued, hle, hquotes⟩ := hi.quotes
  have hpay : db'.payments = db.payments := by rw [hi.frame]
  have hmelt := hi.meltState
  have hmem : ∀ q' ∈ db'.mintQuotes.rows, ∃ q ∈ db.mintQuotes.rows,
      q' = Db.setIssued quote.id issued q := by
    intro q' hq'
    rw [hquotes] at hq'
    obtain ⟨q, hq, rfl⟩ := List.mem_map.mp hq'
    exact ⟨q, hq, rfl⟩
  have hid : ∀ q ∈ db.mintQuotes.rows, ∃ q' ∈ db'.mintQuotes.rows, q'.id = q.id := by
    intro q hq
    refine ⟨Db.setIssued quote.id issued q, ?_, Db.setIssued_id _ _ _⟩
    rw [hquotes]
    exact List.mem_map_of_mem hq
  have hpaid : ∀ q, (Db.setIssued quote.id issued q).amountPaid = q.amountPaid := by
    intro q
    unfold Db.setIssued
    split <;> rfl
  constructor
  · intro q' hq'
    obtain ⟨q, hq, rfl⟩ := hmem q' hq'
    rw [hpaid]
    unfold Db.setIssued
    split
    next heq =>
      have := Table.eq_of_key hq hi.mem heq
      subst this
      exact hle
    next => exact h.covered q hq
  · intro q' hq'
    obtain ⟨q, hq, rfl⟩ := hmem q' hq'
    rw [hpaid, Db.setIssued_id, hpay]
    exact h.paid q hq
  · intro q' hq'
    obtain ⟨q, hq, rfl⟩ := hmem q' hq'
    rw [Db.setIssued_id, issuedFor, hi.signed]
    have hold := h.issued q hq
    rw [issuedFor] at hold
    rw [← hold]
    unfold Db.setIssued
    split
    next heq =>
      have := Table.eq_of_key hq hi.mem heq
      subst this
      simp [hissued]
    next hne => simp [Ne.symm hne]
  · intro row hrow
    obtain ⟨q, hq, hq'⟩ := h.payments row (hpay ▸ hrow)
    obtain ⟨q', hmem', hid'⟩ := hid q hq
    exact ⟨q', hmem', hid'.trans hq'⟩
  · intro r hr hnone q' hq'
    obtain ⟨q, hq, rfl⟩ := hmem q' hq'
    rw [Db.setIssued_id]
    rcases hi.origin r hr with hr | ⟨hs, -⟩
    · exact h.unsigned r hr hnone q hq
    · simp [hnone] at hs
  · intro r hr i hri
    rw [hmelt]
    rcases hi.origin r hr with hr | ⟨-, hq, -⟩
    · apply (h.known r hr i hri).imp_left
      rintro ⟨q, hq, rfl⟩
      exact hid q hq
    · rw [hri, Option.some.injEq] at hq
      exact .inl (hq ▸ hid quote hi.mem)

end Counters

/-! ## Identifiers -/

/-- The same identifiers name mint quotes and melt quotes. -/
structure SameQuotes (db db' : Db) : Prop where
  mint : ∀ q' ∈ db'.mintQuotes.rows, ∃ q ∈ db.mintQuotes.rows, q.id = q'.id
  melt : ∀ i, db'.meltState i = none ↔ db.meltState i = none

namespace SameQuotes

variable {env : Env} {db db' db'' : Db}

theorem of_frame (hmint : db'.mintQuotes = db.mintQuotes) (hmelt : db'.meltQuotes = db.meltQuotes) :
    SameQuotes db db' where
  mint q hq := ⟨q, hmint ▸ hq, rfl⟩
  melt i := by rw [Db.meltState_congr hmelt]

theorem trans (h : SameQuotes db db') (h' : SameQuotes db' db'') : SameQuotes db db'' where
  mint q'' hq'' := by
    obtain ⟨q', hq', hid'⟩ := h'.mint q'' hq''
    obtain ⟨q, hq, hid⟩ := h.mint q' hq'
    exact ⟨q, hq, hid.trans hid'⟩
  melt i := (h'.melt i).trans (h.melt i)

theorem of_credit {quote : MintQuote} {amount : Amount} {paymentId : String}
    (h : Credit quote amount paymentId db db') : SameQuotes db db' where
  mint q' hq' := by
    obtain ⟨paid, -, hquotes⟩ := h.quotes
    rw [hquotes] at hq'
    obtain ⟨q, hq, rfl⟩ := List.mem_map.mp hq'
    exact ⟨q, hq, (Db.setPaid_id _ _ _).symm⟩
  melt i := by rw [h.meltState]

theorem of_credits (h : Relation.ReflTransGen Credited db db') : SameQuotes db db' := by
  induction h with
  | refl => exact of_frame rfl rfl
  | tail _ hstep ih =>
      obtain ⟨quote, amount, paymentId, hcredit⟩ := hstep
      exact ih.trans (of_credit hcredit)

theorem of_issue {quote : MintQuote} {total : Nat} (h : Issue quote total db db') :
    SameQuotes db db' where
  mint q' hq' := by
    obtain ⟨issued, -, -, hquotes⟩ := h.quotes
    rw [hquotes] at hq'
    obtain ⟨q, hq, rfl⟩ := List.mem_map.mp hq'
    exact ⟨q, hq, (Db.setIssued_id _ _ _).symm⟩
  melt i := by rw [h.meltState]

/-- A known quote changes its state. -/
theorem of_update {quoteId : QuoteId} {state : MeltQuoteState}
    (hmint : db'.mintQuotes = db.mintQuotes) (hknown : db.meltState quoteId ≠ none)
    (hmelt : db'.meltState = Function.update db.meltState quoteId (some state)) :
    SameQuotes db db' where
  mint q hq := ⟨q, hmint ▸ hq, rfl⟩
  melt i := by
    rw [hmelt]
    by_cases hi : i = quoteId
    · subst hi
      simp [hknown]
    · rw [Function.update_of_ne hi]

end SameQuotes

section Melts

variable {env : Env} {db db' : Db}

theorem MeltReserved.known {request : MeltRequest} {operationId : Uuid} {quote : MeltQuote}
    {rows : List ProofRow} (h : MeltReserved env request operationId quote rows db db') :
    db.meltState request.quote ≠ none := by
  rcases h.meltable with hs | hs <;> simp [hs]

theorem MeltReserved.sameQuotes {request : MeltRequest} {operationId : Uuid} {quote : MeltQuote}
    {rows : List ProofRow} (h : MeltReserved env request operationId quote rows db db') :
    SameQuotes db db' :=
  .of_update (by rw [h.frame]) h.known h.pending

theorem MeltSettled.known {quoteId : QuoteId} {spent : Amount} {change : Option PendingChange}
    {ys : List PublicKey} (h : MeltSettled env quoteId spent change ys db db') :
    db.meltState quoteId ≠ none := by
  obtain ⟨state, hs, -⟩ := h.payable
  simp [hs]

theorem MeltSettled.sameQuotes {quoteId : QuoteId} {spent : Amount} {change : Option PendingChange}
    {ys : List PublicKey} (h : MeltSettled env quoteId spent change ys db db') :
    SameQuotes db db' :=
  .of_update (by rw [h.frame]) h.known h.paid

theorem MeltReserved.quotesKept {request : MeltRequest} {operationId : Uuid} {quote : MeltQuote}
    {rows : List ProofRow} (h : MeltReserved env request operationId quote rows db db')
    (hdisjoint : ∀ q ∈ db.mintQuotes.rows, db.meltState q.id = none) : QuotesKept db db' := by
  refine .of_messages (by rw [h.frame]) (by rw [h.frame]) h.signatures ?_ ?_ ?_
  · intro i hi hnone
    exact hi ((h.sameQuotes.melt i).mp hnone)
  · intro q hq heq
    rw [Option.some.injEq] at heq
    exact h.known (heq ▸ hdisjoint q hq)
  · intro i hi hnone
    rw [Option.some.injEq] at hi
    exact h.known (hi ▸ (h.sameQuotes.melt i).mp hnone)

theorem MeltSettled.quotesKept {quoteId : QuoteId} {spent : Amount} {change : Option PendingChange}
    {ys : List PublicKey} (h : MeltSettled env quoteId spent change ys db db') :
    QuotesKept db db' := by
  refine .of_deleted (by rw [h.frame]) (by rw [h.frame]) h.signatures ?_ ?_
  · intro i hi hnone
    exact hi ((h.sameQuotes.melt i).mp hnone)
  · intro r hr
    have : change.isNone = true ∧ r.quoteId = some quoteId ∧ r.c = none := by
      simpa [Db.reservedFor] using hr
    exact this.2.2

theorem ChangeStored.quotesKept {change : PendingChange} {signatures : List BlindSignature}
    (h : ChangeStored change signatures db db') (hl : Ledger db)
    (hdisjoint : ∀ q ∈ db.mintQuotes.rows, db.meltState q.id = none)
    (hknown : db.meltState change.quoteId ≠ none) : QuotesKept db db' := by
  obtain ⟨u, mid, hadd, hsigs⟩ := h.signed
  have hmid := Db.addBlindSignatures_frame hadd
  have hkept : QuotesKept db mid := .of_signed hl hadd
    (fun q hq heq => hknown (by
      rw [Option.some.injEq] at heq
      exact heq ▸ hdisjoint q hq))
    (fun i hi => by
      rw [Option.some.injEq] at hi
      exact hi ▸ hknown)
  obtain ⟨t, rfl⟩ := hmid
  refine hkept.trans (.of_deleted (by rw [h.frame]) (by rw [h.frame]) hsigs ?_ ?_)
  · intro i hi
    rwa [show db'.meltState = db.meltState from Db.meltState_congr (by rw [h.frame])]
  · intro r hr
    have : r.quoteId = some change.quoteId ∧ r.c = none := by simpa [Db.reservedFor] using hr
    exact this.2

end Melts

/-! ## Every step -/

section Steps

variable {env : Env} {backends : Backends} {w w' : World} {a : Action}

/-- A rollback touches proofs only. -/
theorem rollback_frame (writer : ProofWriter) (db : Db) :
    ∃ t, (writer.rollback db).2 = { db with proofs := t } := by
  refine Tx.commit_preserves (P := fun d : Db => ∃ t, d = { db with proofs := t }) ⟨db.proofs, rfl⟩ ?_
  intro u db' h
  simp only [ProofWriter.resetProofsToOriginalState, Tx.bind_ok, Tx.mapErr_ok] at h
  obtain ⟨_, mid, hloop, hremove⟩ := h
  have hmid : ∃ t, mid = { db with proofs := t } := by
    refine Tx.forM_preserves (P := fun d : Db => ∃ t, d = { db with proofs := t }) ?_
      ⟨db.proofs, rfl⟩ hloop
    rintro state _ d' ⟨t, rfl⟩ hround
    simp only [Tx.bind_ok, Tx.mapErr_ok, Tx.pure_ok] at hround
    obtain ⟨_, _, hupd, -, rfl⟩ := hround
    obtain ⟨-, -, rfl⟩ := Db.updateProofsStates_ok hupd
    exact ⟨_, rfl⟩
  obtain ⟨t, rfl⟩ := hmid
  obtain ⟨-, rfl⟩ := Db.removeProofs_ok hremove
  exact ⟨_, rfl⟩

/-- A step creates a mint quote, creates a melt quote, or keeps the identifiers. -/
theorem Move.quoteCases (h : Move env w a w') :
    (SameQuotes w.db w'.db ∧ w.nextId ≤ w'.nextId) ∨
      (∃ quote t, quote.id = .uuid w.nextId ∧ quote.amountPaid = .zero ∧
        quote.amountIssued = .zero ∧ t.rows = w.db.mintQuotes.rows ++ [quote] ∧
        w' = { w with db := { w.db with mintQuotes := t } }.tick) ∨
      ∃ quote t, quote.id = .uuid w.nextId ∧ t.rows = w.db.meltQuotes.rows ++ [quote] ∧
        w' = { w with db := { w.db with meltQuotes := t } }.tick := by
  cases h with
  | createMintQuote quote t hid hzero hrows =>
      exact .inr (.inl ⟨quote, t, hid, hzero.1, hzero.2, hrows, rfl⟩)
  | createMeltQuote quote t hid hrows => exact .inr (.inr ⟨quote, t, hid, hrows, rfl⟩)
  | tick => exact .inl ⟨.of_frame rfl rfl, Nat.le_succ _⟩
  | credit db' h => exact .inl ⟨.of_credits h, Nat.le_refl _⟩
  | issue quote total db' h => exact .inl ⟨.of_issue h, Nat.le_succ _⟩
  | setupSwap request setup rows db' hid h =>
      refine .inl ⟨.of_frame ?_ ?_, Nat.le_succ _⟩ <;> rw [World.tick, h.frame]
  | finalizeSwap task signatures stored keepSaga htask hsigned h =>
      obtain ⟨t, ht⟩ := deleteSagaUnless_frame keepSaga task.setup.operationId stored
      refine .inl ⟨.of_frame ?_ ?_, Nat.le_refl _⟩ <;> rw [ht, h.frame]
  | compensate task db' htask hremoved h =>
      refine .inl ⟨.of_frame ?_ ?_, Nat.le_refl _⟩ <;> rw [h.frame]
  | deleteSaga task fails htask hremoved =>
      obtain ⟨t, ht⟩ := deleteSagaUnless_frame fails task.saga.operationId w.db
      refine .inl ⟨.of_frame ?_ ?_, Nat.le_refl _⟩ <;> rw [World.deleteSaga, ht]
  | startMelt request quote rows writer db' h hgood =>
      exact .inl ⟨h.sameQuotes, Nat.le_succ _⟩
  | settleInternally request quote rows mintQuote reserved credited change ys writer db' hreserved
      hcredit hsettled hgood =>
      exact .inl ⟨hreserved.sameQuotes.trans ((SameQuotes.of_credit hcredit).trans
        hsettled.sameQuotes), Nat.le_succ _⟩
  | failMelt writer hgood => exact .inl ⟨.of_frame rfl rfl, Nat.le_succ _⟩
  | settleMelt task quote spent change ys writer db' htask hphase h hgood =>
      exact .inl ⟨h.sameQuotes, Nat.le_refl _⟩
  | storeChange task change signatures db' htask hphase hsign h =>
      refine .inl ⟨.of_frame ?_ ?_, Nat.le_refl _⟩ <;> rw [h.frame]
  | rollback task htask =>
      obtain ⟨t, ht⟩ := rollback_frame task.writer w.db
      refine .inl ⟨.of_frame ?_ ?_, Nat.le_refl _⟩ <;> rw [World.rollback, ht]
  | restart check db' h =>
      exact .inl ⟨⟨fun q hq => ⟨q, by rw [h.frame] at hq; exact hq, rfl⟩, h.known⟩, Nat.le_refl _⟩
  | _ => exact .inl ⟨.of_frame rfl rfl, Nat.le_refl _⟩

private theorem meltState_created {db : Db} {t : Table MeltQuote.id} {quote : MeltQuote}
    (hrows : t.rows = db.meltQuotes.rows ++ [quote]) (i : QuoteId) :
    ({ db with meltQuotes := t } : Db).meltState i ≠ none ↔
      db.meltState i ≠ none ∨ i = quote.id := by
  simp only [Option.ne_none_iff_exists', Db.meltState_eq_some, hrows, List.mem_append,
    List.mem_singleton]
  constructor
  · rintro ⟨state, q, hq | rfl, hid, hs⟩
    · exact .inl ⟨state, q, hq, hid, hs⟩
    · exact .inr hid.symm
  · rintro (⟨state, q, hq, hid, hs⟩ | rfl)
    · exact ⟨state, q, .inl hq, hid, hs⟩
    · exact ⟨quote.state, quote, .inr rfl, rfl, rfl⟩

theorem Move.quoteIds (h : Move env w a w') (hw : QuoteIds w) : QuoteIds w' := by
  rcases h.quoteCases with ⟨hsame, hnext⟩ | ⟨quote, t, hid, -, -, hrows, rfl⟩ |
    ⟨quote, t, hid, hrows, rfl⟩
  · refine ⟨?_, ?_, ?_⟩
    · intro q' hq'
      obtain ⟨q, hq, hid⟩ := hsame.mint q' hq'
      obtain ⟨n, hn, hqn⟩ := hw.mint q hq
      exact ⟨n, Nat.lt_of_lt_of_le hn hnext, hid ▸ hqn⟩
    · intro i hi
      obtain ⟨n, hn, hin⟩ := hw.melt i fun hnone => hi ((hsame.melt i).mpr hnone)
      exact ⟨n, Nat.lt_of_lt_of_le hn hnext, hin⟩
    · intro q' hq'
      obtain ⟨q, hq, hid⟩ := hsame.mint q' hq'
      exact (hsame.melt q'.id).mpr (hid ▸ hw.disjoint q hq)
  · have hmem : ∀ q ∈ t.rows, q ∈ w.db.mintQuotes.rows ∨ q = quote := by
      simp [hrows]
    refine ⟨?_, ?_, ?_⟩
    · intro q hq
      rcases hmem q hq with hq | rfl
      · obtain ⟨n, hn, hqn⟩ := hw.mint q hq
        exact ⟨n, Nat.lt_succ_of_lt hn, hqn⟩
      · exact ⟨w.nextId, Nat.lt_succ_self _, hid⟩
    · intro i hi
      obtain ⟨n, hn, hin⟩ := hw.melt i hi
      exact ⟨n, Nat.lt_succ_of_lt hn, hin⟩
    · intro q hq
      rcases hmem q hq with hq | rfl
      · exact hw.disjoint q hq
      · by_contra hne
        obtain ⟨n, hn, heq⟩ := hw.melt q.id hne
        rw [hid, QuoteId.uuid.injEq] at heq
        exact Nat.lt_irrefl _ (heq ▸ hn)
  · have hstate := fun i => (meltState_created hrows i).mp
    refine ⟨?_, ?_, ?_⟩
    · intro q hq
      obtain ⟨n, hn, hqn⟩ := hw.mint q hq
      exact ⟨n, Nat.lt_succ_of_lt hn, hqn⟩
    · intro i hi
      rcases hstate i hi with hi | rfl
      · obtain ⟨n, hn, hin⟩ := hw.melt i hi
        exact ⟨n, Nat.lt_succ_of_lt hn, hin⟩
      · exact ⟨w.nextId, Nat.lt_succ_self _, hid⟩
    · intro q hq
      by_contra hne
      rcases hstate q.id hne with hne | heq
      · exact hne (hw.disjoint q hq)
      · obtain ⟨n, hn, hqn⟩ := hw.mint q hq
        rw [hqn, hid, QuoteId.uuid.injEq] at heq
        exact Nat.lt_irrefl _ (heq ▸ hn)

/-- A known melt quote stays known. -/
theorem Move.meltKnown (h : Move env w a w') {i : QuoteId} (hi : w.db.meltState i ≠ none) :
    w'.db.meltState i ≠ none := by
  rcases h.quoteCases with ⟨hsame, -⟩ | ⟨quote, t, -, -, -, -, rfl⟩ | ⟨quote, t, -, hrows, rfl⟩
  · exact fun hnone => hi ((hsame.melt i).mp hnone)
  · exact hi
  · exact (meltState_created hrows i).mpr (.inl hi)

/-- Change is promised for known melt quotes. -/
def ChangeKnown (w : World) : Prop :=
  ∀ task ∈ w.melts, ∀ c, task.phase = .change c → w.db.meltState c.quoteId ≠ none

private theorem changeTask_quote {operationId : Uuid} {writer : ProofWriter} {quoteId : QuoteId}
    {change : Option PendingChange} (hchange : ∀ c ∈ change, c.quoteId = quoteId) {task : MeltTask}
    (h : task ∈ World.changeTask operationId writer change) {c : PendingChange}
    (hc : task.phase = .change c) : c.quoteId = quoteId := by
  obtain ⟨c', hc', rfl⟩ := List.mem_map.mp h
  cases hc
  exact hchange c (Option.mem_toList.mp hc')

theorem Move.changeKnown (h : Move env w a w') (hw : ChangeKnown w) : ChangeKnown w' := by
  intro task htask c hc
  have hkeep : task ∈ w.melts → w'.db.meltState c.quoteId ≠ none :=
    fun hold => h.meltKnown (hw task hold c hc)
  have hknown : ∀ i, w.db.meltState i ≠ none → w'.db.meltState i ≠ none := fun i => h.meltKnown
  cases h with
  | startMelt request quote rows writer db' h hgood =>
      rcases List.mem_append.mp htask with hold | hnew
      · exact hkeep hold
      · rw [List.mem_singleton.mp hnew] at hc
        cases hc
  | settleInternally request quote rows mintQuote reserved credited change ys writer db' hreserved
      hcredit hsettled hgood =>
      rcases List.mem_append.mp htask with hold | hnew
      · exact hkeep hold
      · rw [changeTask_quote hsettled.changeQuote hnew hc]
        exact hknown _ hreserved.known
  | settleMelt old quote spent change ys writer db' hold hphase h hgood =>
      rcases List.mem_append.mp htask with hold | hnew
      · exact hkeep (List.mem_of_mem_erase hold)
      · rw [changeTask_quote h.changeQuote hnew hc]
        exact hknown _ h.known
  | endMelt old _ => exact hkeep (List.mem_of_mem_erase htask)
  | releaseMelt old _ _ _ => exact hkeep (List.mem_of_mem_erase htask)
  | storeChange old _ _ _ _ _ _ _ => exact hkeep (List.mem_of_mem_erase htask)
  | restart _ _ _ => cases htask
  | crash _ => cases htask
  | _ => exact hkeep htask

/-- A new mint quote has neither payments nor signatures. -/
theorem Ledger.create {t : Table MintQuote.id} {quote : MintQuote} (h : Ledger w.db)
    (hw : QuoteIds w) (hid : quote.id = .uuid w.nextId) (hpaid : quote.amountPaid = .zero)
    (hissued : quote.amountIssued = .zero) (hrows : t.rows = w.db.mintQuotes.rows ++ [quote]) :
    Ledger { w.db with mintQuotes := t } := by
  have hmem : ∀ q ∈ t.rows, q ∈ w.db.mintQuotes.rows ∨ q = quote := by simp [hrows]
  have hfresh : ∀ q ∈ w.db.mintQuotes.rows, q.id ≠ quote.id := by
    intro q hq heq
    exact (Table.fresh_of_append hrows).1 q hq (by simp [heq])
  have hmelt : w.db.meltState quote.id = none := by
    by_contra hne
    obtain ⟨n, hn, heq⟩ := hw.melt quote.id hne
    rw [hid, QuoteId.uuid.injEq] at heq
    exact Nat.lt_irrefl _ (heq ▸ hn)
  have hrow : ∀ r ∈ w.db.blindSignatures.rows, r.quoteId ≠ some quote.id := by
    intro r hr hq
    rcases h.known r hr _ hq with ⟨q, hq, heq⟩ | hne
    · exact hfresh q hq heq
    · exact hne hmelt
  refine ⟨?_, ?_, ?_, ?_, ?_, ?_⟩
  · intro q hq
    rcases hmem q hq with hq | rfl
    · exact h.covered q hq
    · rw [hpaid, hissued]
  · intro q hq
    rcases hmem q hq with hq | rfl
    · exact h.paid q hq
    · rw [hpaid]
      refine (Table.sum_eq_zero ?_).symm
      intro row hrow
      obtain ⟨q', hq', heq⟩ := h.payments row hrow
      exact if_neg fun hq => hfresh q' hq' (heq.trans hq)
  · intro q hq
    rcases hmem q hq with hq | rfl
    · exact h.issued q hq
    · rw [hissued]
      refine (Table.sum_eq_zero ?_).symm
      intro r hr
      simp [issuedFor, Db.signedFor, hrow r hr]
  · intro row hrow
    obtain ⟨q, hq, heq⟩ := h.payments row hrow
    exact ⟨q, by simp [hrows, hq], heq⟩
  · intro r hr hc q hq
    rcases hmem q hq with hq | rfl
    · exact h.unsigned r hr hc q hq
    · exact hrow r hr
  · intro r hr i hi
    apply (h.known r hr i hi).imp_left
    rintro ⟨q, hq, heq⟩
    exact ⟨q, by simp [hrows, hq], heq⟩

theorem Move.ledger (h : Move env w a w') (hw : QuoteIds w) (hc : ChangeKnown w)
    (hl : Ledger w.db) : Ledger w'.db := by
  cases h with
  | createMintQuote quote t hid hzero hrows => exact hl.create hw hid hzero.1 hzero.2 hrows
  | createMeltQuote quote t hid hrows =>
      exact hl.of_kept
        { quotes := rfl
          payments := rfl
          issued := fun _ _ => rfl
          unsigned := fun r hr _ => .inl hr
          known := fun r hr i hi => .inl ⟨r, hr, hi⟩
          melts := fun i hi => (meltState_created hrows i).mpr (.inl hi) }
  | credit db' h => exact hl.credits h
  | issue quote total db' h => exact hl.issue h
  | setupSwap request setup rows db' hid h =>
      refine hl.of_kept (.of_messages (by rw [World.tick, h.frame]) (by rw [World.tick, h.frame])
        h.signatures ?_ (by simp) (by simp))
      intro i hi
      change db'.meltState i ≠ none
      rwa [show db'.meltState = w.db.meltState from Db.meltState_congr (by rw [h.frame])]
  | finalizeSwap task signatures stored keepSaga htask hsigned h =>
      obtain ⟨t, ht⟩ := deleteSagaUnless_frame keepSaga task.setup.operationId stored
      obtain ⟨u, mid, hadd, hsigs⟩ := h.signed
      have hkept : QuotesKept w.db mid := .of_signed hl hadd (by simp) (by simp)
      obtain ⟨b, rfl⟩ := Db.addBlindSignatures_frame hadd
      refine hl.of_kept (hkept.trans (.of_eq ?_ ?_ ?_ ?_))
      · rw [ht, h.frame]
      · rw [ht, h.frame]
      · rw [ht]
        exact hsigs
      · rw [ht]
        exact Db.meltState_congr (by rw [h.frame])
  | compensate task db' htask hremoved h =>
      refine hl.of_kept (.of_deleted (by rw [h.frame]) (by rw [h.frame]) h.signatures ?_ ?_)
      · intro i hi
        change db'.meltState i ≠ none
        rwa [show db'.meltState = w.db.meltState from Db.meltState_congr (by rw [h.frame])]
      · intro r hr
        have : r.blindedMessage ∈ task.saga.blindedSecrets ∧ r.c = none := by
          simpa [Db.unsigned] using hr
        exact this.2
  | deleteSaga task fails htask hremoved =>
      obtain ⟨t, ht⟩ := deleteSagaUnless_frame fails task.saga.operationId w.db
      rw [World.deleteSaga, ht]
      exact hl.of_kept (.of_eq rfl rfl rfl rfl)
  | startMelt request quote rows writer db' h hgood => exact hl.of_kept (h.quotesKept hw.disjoint)
  | settleInternally request quote rows mintQuote reserved credited change ys writer db' hreserved
      hcredit hsettled hgood =>
      exact ((hl.of_kept (hreserved.quotesKept hw.disjoint)).credit hcredit).of_kept
        hsettled.quotesKept
  | settleMelt task quote spent change ys writer db' htask hphase h hgood =>
      exact hl.of_kept h.quotesKept
  | storeChange task change signatures db' htask hphase hsign h =>
      exact hl.of_kept (h.quotesKept hl hw.disjoint (hc task htask change hphase))
  | rollback task htask =>
      obtain ⟨t, ht⟩ := rollback_frame task.writer w.db
      rw [World.rollback, ht]
      exact hl.of_kept (.of_eq rfl rfl rfl rfl)
  | restart check db' h =>
      refine hl.of_kept ⟨by rw [h.frame], by rw [h.frame], fun q _ => h.signed _,
        fun r hr _ => .inl (h.origin r hr), fun r hr i hi => .inl ⟨r, h.origin r hr, hi⟩, ?_⟩
      exact fun i hi hnone => hi ((h.known i).mp hnone)
  | _ => exact hl

/-- The invariants of the mint quotes. -/
structure QuotesInv (w : World) : Prop where
  ids : QuoteIds w
  change : ChangeKnown w
  ledger : Ledger w.db

theorem quotesInv_run (keysets : Keysets) (actions : List Action) :
    QuotesInv (World.reached env backends keysets actions) := by
  refine invariant_run ?_ ?_ actions
  · intro w a hw
    have hmove := step_move env backends w a
    exact ⟨hmove.quoteIds hw.ids, hmove.changeKnown hw.change,
      hmove.ledger hw.ids hw.change hw.ledger⟩
  · refine ⟨⟨?_, ?_, ?_⟩, ?_, ⟨?_, ?_, ?_, ?_, ?_, ?_⟩⟩ <;>
      simp [World.init, Db.empty, Db.meltState, Table.find?, ChangeKnown]

end Steps

/-- In every run, each mint quote has issued at most what it was paid, it was paid the sum of the
payments recorded for it, its stored signatures add up to what it has issued, and no payment is
recorded twice. -/
theorem mint_quotes_balance (env : Env) (backends : Backends) (keysets : Keysets)
    (actions : List Action) :
    (∀ q ∈ (World.reached env backends keysets actions).db.mintQuotes.rows,
      q.amountIssued ≤ q.amountPaid ∧
      q.amountPaid.toNat = Amount.total
        (((World.reached env backends keysets actions).db.payments.rows.filter fun row =>
          row.quoteId = q.id).map PaymentRow.amount) ∧
      Amount.total
        (((World.reached env backends keysets actions).db.blindSignatures.rows.filter fun r =>
          r.c.isSome && r.quoteId = some q.id).map SignatureRow.amount) = q.amountIssued.toNat) ∧
      ((World.reached env backends keysets actions).db.payments.rows.map
        PaymentRow.paymentId).Nodup := by
  have hl : Ledger (World.reached env backends keysets actions).db :=
    (quotesInv_run keysets actions).ledger
  refine ⟨?_, Table.nodup _⟩
  intro q hq
  refine ⟨hl.covered q hq, ?_, ?_⟩
  · rw [hl.paid q hq, Amount.total, List.map_map, ← Table.sum_ite]
    exact Table.sum_congr fun row _ => by simp [paymentFor]
  · rw [hl.issued q hq, Amount.total, List.map_map]
    exact (Table.sum_ite _ _).symm

end Cdk
