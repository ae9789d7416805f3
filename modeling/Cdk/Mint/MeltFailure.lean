import Cdk.Mint.Holdings

/-!
# Melts that fail

After the call to the backend a melt keeps its inputs, burns them or gives them
back. It gives them back by rolling the proof writer back, which knows the proofs
and nothing else: the quote stays pending, and its request and its change outputs
stay recorded. Only a melt that fails inside its first transaction leaves nothing
behind.
-/

namespace Cdk

open Lib

/-! ## Answers of the backend -/

/-- A status that says that nothing was paid. -/
def MeltQuoteState.isFailure (state : MeltQuoteState) : Bool := state = .unpaid ∨ state = .failed

/-- A status that says that the payment was made or may still be made. -/
def MeltQuoteState.isOpen (state : MeltQuoteState) : Bool := state = .paid ∨ state = .pending

namespace PaymentBackend

/-- The last status that the backend has reported on a payment: that of the check when there is
one, and none when the backend did not answer. -/
def lastStatus (backend : PaymentBackend) (quote : MeltQuote) : Option MeltQuoteState :=
  match backend.makePayment with
  | .ok pay =>
      if pay.status = .unknown ∨ pay.status = .failed then
        (backend.checkOutgoingPayment pay.paymentLookupId).map MakePaymentResponse.status
      else some pay.status
  | .error .invoiceAlreadyPaid => none
  | .error .other =>
      (quote.requestLookupId.bind backend.checkOutgoingPayment).map MakePaymentResponse.status

/-- The backend has definitively reported that nothing was paid by this payment. -/
def Failed (backend : PaymentBackend) (quote : MeltQuote) : Prop :=
  backend.makePayment = .error .invoiceAlreadyPaid ∨
    ∃ state, backend.lastStatus quote = some state ∧ state.isFailure = true

/-- The backend has reported last that the payment was made or may still be made, or it has not
answered the check of a payment that has ended with an error. -/
def Open (backend : PaymentBackend) (quote : MeltQuote) : Prop :=
  (∃ state, backend.lastStatus quote = some state ∧ state.isOpen = true) ∨
    backend.makePayment = .error .other ∧ quote.requestLookupId.isSome ∧
      backend.lastStatus quote = none

end PaymentBackend

section Decisions

variable {backend : PaymentBackend} {quote : MeltQuote} {response : MakePaymentResponse}

theorem decideByStatus_failure (h : response.status.isFailure = true) :
    decideByStatus response = .rollback := by
  have hs : response.status = .unpaid ∨ response.status = .failed := by
    simpa [MeltQuoteState.isFailure] using h
  rcases hs with hs | hs <;> simp [decideByStatus, hs]

theorem decideByStatus_open (h : response.status.isOpen = true) :
    decideByStatus response = .settle response ∨ ∃ e, decideByStatus response = .hold e := by
  have hs : response.status = .paid ∨ response.status = .pending := by
    simpa [MeltQuoteState.isOpen] using h
  rcases hs with hs | hs <;> simp [decideByStatus, hs]

theorem decideByCheck_failure (h : response.status.isFailure = true) :
    decideByCheck response = .rollback := by
  have hs : response.status ≠ .paid := by
    intro hs
    simp [MeltQuoteState.isFailure, hs] at h
  rw [decideByCheck, if_neg hs, decideByStatus_failure h]

theorem decideByCheck_open (h : response.status.isOpen = true) :
    ∃ e, decideByCheck response = .hold e := by
  have hs : response.status = .paid ∨ response.status = .pending := by
    simpa [MeltQuoteState.isOpen] using h
  rcases hs with hs | hs <;> simp [decideByCheck, decideByStatus, hs]

/-- Where the decision on a payment comes from when the backend has answered. -/
theorem decidePayment_of_lastStatus {state : MeltQuoteState}
    (h : backend.lastStatus quote = some state) :
    ∃ response : MakePaymentResponse, response.status = state ∧
      (decidePayment backend quote = decideByStatus response ∨
        decidePayment backend quote = decideByCheck response) := by
  unfold PaymentBackend.lastStatus at h
  unfold decidePayment
  cases hpay : backend.makePayment with
  | ok pay =>
      simp only [hpay] at h ⊢
      split at h
      next hdoubt =>
        obtain ⟨check, hcheck, hstate⟩ := Option.map_eq_some_iff.mp h
        exact ⟨check, hstate, .inr (by rw [if_pos hdoubt, hcheck])⟩
      next hsure => exact ⟨pay, Option.some.inj h, .inl (by rw [if_neg hsure])⟩
  | error error =>
      cases error with
      | invoiceAlreadyPaid => simp [hpay] at h
      | other =>
          simp only [hpay] at h ⊢
          obtain ⟨check, hcheck, hstate⟩ := Option.map_eq_some_iff.mp h
          obtain ⟨lookup, hlookup, hanswer⟩ := Option.bind_eq_some_iff.mp hcheck
          exact ⟨check, hstate, .inr (by rw [hlookup]; dsimp only; rw [hanswer])⟩

/-- A payment that has definitively failed gives the inputs back. -/
theorem decidePayment_failed (h : backend.Failed quote) :
    decidePayment backend quote = .rollback ∨ ∃ e, decidePayment backend quote = .drop e := by
  rcases h with hpay | ⟨state, hstate, hfail⟩
  · exact .inr ⟨.requestAlreadyPaid, by rw [decidePayment, hpay]⟩
  · obtain ⟨response, rfl, hdec | hdec⟩ := decidePayment_of_lastStatus hstate
    · exact .inl (hdec.trans (decideByStatus_failure hfail))
    · exact .inl (hdec.trans (decideByCheck_failure hfail))

/-- A payment that was made or may still be made burns the inputs or holds them. -/
theorem decidePayment_open (h : backend.Open quote) :
    (∃ response, decidePayment backend quote = .settle response) ∨
      ∃ e, decidePayment backend quote = .hold e := by
  rcases h with ⟨state, hstate, hopen⟩ | ⟨hpay, hlookup, hnone⟩
  · obtain ⟨response, rfl, hdec | hdec⟩ := decidePayment_of_lastStatus hstate
    · rw [hdec]
      exact (decideByStatus_open hopen).imp_left fun h => ⟨response, h⟩
    · rw [hdec]
      exact .inr (decideByCheck_open hopen)
  · obtain ⟨lookup, hlookup⟩ := Option.isSome_iff_exists.mp hlookup
    have hanswer : backend.checkOutgoingPayment lookup = none := by
      simpa [PaymentBackend.lastStatus, hpay, hlookup] using hnone
    refine .inr ⟨.internal, ?_⟩
    simp [decidePayment, hpay, hlookup, hanswer]

end Decisions

/-! ## Rolling back -/

section Rollback

variable {env : Env} {keysets : Keysets} {backends : Backends} {db db' : Db}

/-- The proofs of a melt in a writer of its own. -/
theorem newWriter_withOriginal (rows : List ProofRow) :
    ProofWriter.withOriginal (rows.map fun r => (r.y, none)) none = rows.map ProofRow.y := by
  simp [ProofWriter.withOriginal, Function.comp_def, List.filter_eq_self.mpr]

theorem newWriter_additions (rows : List ProofRow) :
    ProofWriter.Additions (rows.map fun r => (r.y, none)) := by
  intro e he state hs
  obtain ⟨r, -, rfl⟩ := List.mem_map.mp he
  cases hs

/-- A rollback of a melt does not remove the proofs that were there before. -/
theorem MeltReserved.not_removable {request : MeltRequest} {operationId : Uuid} {quote : MeltQuote}
    {rows : List ProofRow} (h : MeltReserved env request operationId quote rows db db') :
    ∀ r ∈ db.proofs.rows, Db.removable (rows.map ProofRow.y) r = false := by
  intro r hr
  have hfresh := (Table.fresh_of_append h.proofs).1 r hr
  exact decide_eq_false fun hp => hfresh hp.1

/-- Rolling a melt back after its first transaction removes its proofs and nothing else. -/
theorem MeltReserved.rollback {request : MeltRequest} {operationId : Uuid} {quote : MeltQuote}
    {rows : List ProofRow} (h : MeltReserved env request operationId quote rows db db') :
    ProofWriter.rollback (rows.map fun r => (r.y, none)) db' =
      (.ok (), { db' with proofs := db.proofs }) := by
  have hnew : ∀ r ∈ rows, Db.removable (rows.map ProofRow.y) r = true := by
    intro r hr
    have hs := (h.reserved.pending r hr).1
    simpa [Db.removable, hs] using ⟨r, hr, rfl⟩
  have hall : db'.Removes (rows.map ProofRow.y) := by
    unfold Db.Removes
    rw [h.proofs, List.filter_append, List.filter_eq_self.mpr hnew,
      List.filter_eq_nil_iff.mpr (by simpa using h.not_removable)]
    simp
  rw [rollback_removes (newWriter_additions rows) (by rwa [newWriter_withOriginal]),
    newWriter_withOriginal, Table.delete_append h.proofs hnew h.not_removable]

/-- Rolling a melt back that has not committed its proofs changes nothing. -/
theorem MeltReserved.rollback_uncommitted {request : MeltRequest} {operationId : Uuid}
    {quote : MeltQuote} {rows : List ProofRow}
    (h : MeltReserved env request operationId quote rows db db') :
    (ProofWriter.rollback (rows.map fun r => (r.y, none)) db).2 = db := by
  apply Tx.commit_preserves (P := fun d => d = db) rfl
  intro u d hd
  rw [(newWriter_additions rows).reset_eq, newWriter_withOriginal, Tx.mapErr_ok] at hd
  obtain ⟨-, rfl⟩ := Db.removeProofs_ok hd
  rw [Table.delete_eq_self h.not_removable]

end Rollback

/-! ## Failed payments -/

section Failures

variable (env : Env) (keysets : Keysets) (backends : Backends) (backend : PaymentBackend)
  (now : Nat) (operationId : Uuid) (request : MeltRequest) (db : Db)

/-- A melt whose payment has definitively failed: its internal settlement finds the invoice paid,
or it was handed to a backend that reports the failure. -/
inductive MeltFails : Prop where
  | internal (writer : ProofWriter) (quote : MeltQuote) (reserved : Db)
      (hreserve : reserveMelt env keysets now operationId request db =
        .ok ((writer, quote), reserved))
      (h : handleInternalMeltMint quote request reserved = .err .requestAlreadyPaid)
  | external (writer : ProofWriter) (quote : MeltQuote) (reserved : Db)
      (hstart : startMelt env keysets backends now operationId request db =
        .ok ((writer, .external quote), reserved))
      (hhanded : outgoingPaymentOptions quote = .ok ())
      (hfailed : backend.Failed quote)

/-- The quote of a request asks for an invoice of this mint. -/
def paidHere : Bool :=
  ((db.meltQuotes.find? request.quote).bind fun quote => internalQuote quote db).isSome

end Failures

section Atomicity

variable {env : Env} {keysets : Keysets} {backends : Backends} {backend : PaymentBackend}
  {now : Nat} {operationId : Uuid} {request : MeltRequest} {db db' : Db}

/-- The first transaction does not change who is asked to settle a quote. -/
theorem MeltReserved.paidHere_eq {quote : MeltQuote} {rows : List ProofRow}
    (h : MeltReserved env request operationId quote rows db db') :
    paidHere request db = (internalQuote quote db').isSome := by
  obtain ⟨q, hq, hquote⟩ := h.stored
  have hid : q.id = request.quote := by
    rw [← h.quoteId, hquote]
  have hfind : db.meltQuotes.find? request.quote = some q := Table.find?_eq_some.mpr ⟨hq, hid⟩
  have hmint : db'.mintQuotes = db.mintQuotes := by rw [h.frame]
  rw [paidHere, hfind, Option.bind_some, hquote, internalQuote, internalQuote, hmint]

/-- After a failed external payment the quote is still pending. -/
theorem MeltReserved.not_restored {quote : MeltQuote} {rows : List ProofRow}
    (h : MeltReserved env request operationId quote rows db db') :
    ({ db' with proofs := db.proofs } : Db) ≠ db := by
  intro heq
  have hpending : ({ db' with proofs := db.proofs } : Db).meltState request.quote =
      some .pending := by
    rw [show ({ db' with proofs := db.proofs } : Db).meltState = db'.meltState from
      Db.meltState_congr rfl, h.pending, Function.update_self]
  rw [heq] at hpending
  rcases h.meltable with hs | hs <;> rw [hs] at hpending <;> cases hpending

/-- A failed external payment returns an error and gives only the proofs back. -/
theorem payExternally_failed (keysets : Keysets) {quote : MeltQuote} {rows : List ProofRow}
    (h : MeltReserved env request operationId quote rows db db')
    (hhanded : outgoingPaymentOptions quote = .ok ()) (hfailed : backend.Failed quote) :
    ∃ e, payExternally env keysets backend (rows.map fun r => (r.y, none)) quote db' =
      (.err e, { db' with proofs := db.proofs }) := by
  have hroll := h.rollback
  unfold payExternally
  rw [hhanded]
  rcases decidePayment_failed hfailed with hdec | ⟨e, hdec⟩
  · exact ⟨.paymentFailed, by simp only [hdec, hroll]⟩
  · exact ⟨e, by simp only [hdec, failWith, hroll]⟩

end Atomicity

/-- A melt whose payment has definitively failed returns an error, and it leaves the database as it
was exactly when its quote asks for an invoice of this mint. -/
theorem melt_failure_restores_iff (env : Env) (keysets : Keysets) (backends : Backends)
    (backend : PaymentBackend) (now : Nat) (operationId : Uuid) (request : MeltRequest) (db : Db)
    (h : MeltFails env keysets backends backend now operationId request db) :
    (∃ e, (melt env keysets backends backend now operationId request db).1 = .err e) ∧
      ((melt env keysets backends backend now operationId request db).2 = db ↔
        paidHere request db = true) := by
  cases h with
  | internal writer quote reserved hreserve h =>
      obtain ⟨rows, rfl, hres⟩ := reserveMelt_ok hreserve
      have hstart : startMelt env keysets backends now operationId request db =
          .err ⟨some .requestAlreadyPaid, rows.map fun r => (r.y, none)⟩ := by
        rw [startMelt, Tx.bind_err]
        refine .inr ⟨_, _, hreserve, Tx.bind_err.mpr (.inl ?_)⟩
        simp only [guarded, h]
      have hmelt : melt env keysets backends backend now operationId request db =
          (.err .requestAlreadyPaid, db) := by
        simp only [melt, hstart, failWith, MeltFailure.result, hres.rollback_uncommitted]
      have hfound : internalQuote quote reserved ≠ none := by
        intro hnone
        rw [handleInternalMeltMint, Tx.bind_err] at h
        rcases h with h | ⟨found, _, hread, h⟩
        · cases h
        · rw [Tx.read_ok, hnone] at hread
          rw [← hread.1] at h
          cases h
      rw [hmelt, hres.paidHere_eq]
      exact ⟨⟨_, rfl⟩, fun _ => Option.isSome_iff_ne_none.mpr hfound, fun _ => rfl⟩
  | external writer quote reserved hstart hhanded hfailed =>
      obtain ⟨rows, quote', ⟨rfl, heq, hnone, hres⟩ | ⟨_, _, _, _, _, heq, -⟩⟩ := startMelt_ok hstart
      · cases heq
        obtain ⟨e, hpay⟩ := payExternally_failed keysets hres hhanded hfailed
        have hmelt : melt env keysets backends backend now operationId request db =
            (.err e, { reserved with proofs := db.proofs }) := by
          simp only [melt, hstart, hpay]
        rw [hmelt, hres.paidHere_eq, hnone]
        refine ⟨⟨e, rfl⟩, fun hsame => absurd hsame hres.not_restored, fun hfalse => ?_⟩
        cases hfalse
      · cases heq

/-! ### An example -/

/-- A quote of eight for an invoice of another node. -/
def sampleExternalQuote : MeltQuote :=
  ⟨.uuid 0, .sat, 8, ⟨false, "lnbc2", some (.sat, 8)⟩, .zero, .unpaid,
    some (.label "l2"), none, .bolt11⟩

/-- A mint with that quote. -/
def sampleQuoted : World :=
  World.reached sampleEnv (fun _ _ => true) [sampleKeyset] [.createMeltQuote sampleExternalQuote]

/-- A request that pays the quote with the proof `a`. -/
def samplePayment : MeltRequest := ⟨.uuid 0, [sampleProof 8 "a"], none⟩

/-- The state after the first transaction of the request. -/
def sampleStarted : (ProofWriter × MeltStart) × Db :=
  (startMelt sampleEnv [sampleKeyset] (fun _ _ => true) 0 1 samplePayment sampleQuoted.db).getD
    (([], .settled none), Db.empty)

/-- A backend that answers the payment and the check with one status. -/
def sampleBackend (status : MeltQuoteState) : PaymentBackend where
  makePayment := .ok ⟨.label "l2", status, .zero, .sat⟩
  checkOutgoingPayment lookup := some ⟨lookup, status, .zero, .sat⟩

/-- A failed payment leaves its quote pending, and the same request is refused afterwards. -/
theorem melt_failure_not_restored :
    startMelt sampleEnv [sampleKeyset] (fun _ _ => true) 0 1 samplePayment sampleQuoted.db =
        .ok sampleStarted ∧
      (melt sampleEnv [sampleKeyset] (fun _ _ => true) (sampleBackend .failed) 0 1 samplePayment
        sampleQuoted.db).1 = .err .paymentFailed ∧
      (melt sampleEnv [sampleKeyset] (fun _ _ => true) (sampleBackend .failed) 0 1 samplePayment
        sampleQuoted.db).2 ≠ sampleQuoted.db ∧
      (melt sampleEnv [sampleKeyset] (fun _ _ => true) (sampleBackend .failed) 0 1 samplePayment
        sampleQuoted.db).2.meltState (.uuid 0) = some .pending ∧
      (melt sampleEnv [sampleKeyset] (fun _ _ => true) (sampleBackend .failed) 0 2 samplePayment
        (melt sampleEnv [sampleKeyset] (fun _ _ => true) (sampleBackend .failed) 0 1 samplePayment
          sampleQuoted.db).2).1 = .err (.database .quoteNotFound) := by
  decide +kernel

theorem melt_failure_restores_iff_sample :
    paidHere samplePayment sampleQuoted.db = false ∧
      (∃ e, (melt sampleEnv [sampleKeyset] (fun _ _ => true) (sampleBackend .failed) 0 1
        samplePayment sampleQuoted.db).1 = .err e) ∧
      ((melt sampleEnv [sampleKeyset] (fun _ _ => true) (sampleBackend .failed) 0 1 samplePayment
          sampleQuoted.db).2 = sampleQuoted.db ↔
        paidHere samplePayment sampleQuoted.db = true) :=
  ⟨by decide +kernel,
    melt_failure_restores_iff sampleEnv [sampleKeyset] (fun _ _ => true) (sampleBackend .failed) 0 1
      samplePayment sampleQuoted.db
      (.external sampleStarted.1.1 { sampleExternalQuote with state := .pending } sampleStarted.2
        (by decide +kernel) rfl (.inr ⟨.failed, rfl, rfl⟩))⟩

/-! ## Paid quotes are settled -/

/-- A quote whose payment can be booked. -/
structure Payable (env : Env) (quoteId : QuoteId) (db : Db) : Prop where
  keyed : ∀ r ∈ db.proofs.rows, env.hashToCurve (utf8 r.secret) = some r.y
  unspent : ∀ r ∈ db.proofs.rows, r.quoteId = some quoteId →
    r.state.transitionAllowed .spent = true
  pending : db.meltState quoteId = some .pending
  request : ∃ row ∈ db.meltRequests.rows, row.quoteId = quoteId

section Settling

variable {env : Env} {keysets : Keysets} {quoteId : QuoteId} {db db' : Db}

private theorem changeMessages_noErr {info : Db.MeltRequestInfo} {spent : Amount} :
    ∀ e, changeMessages keysets info spent ≠ .err e := by
  have hsub : ∀ a b : Amount, ∀ e : Error, a.sub b ≠ .err e := by
    intro a b e
    unfold Amount.sub Outcome.expect
    cases a.checkedSub b <;> simp
  have hsplit : ∀ (a : Amount) (ds : List Amount) (e : Error), a.split ds ≠ .err e := by
    intro a ds e
    unfold Amount.split
    split <;> simp
  intro e h
  unfold changeMessages changeAmounts at h
  cases hrest : info.inputsAmount.sub spent (ε := Error) with
  | err e => exact hsub _ _ _ hrest
  | panic => simp [hrest] at h
  | ok rest =>
      cases htarget : rest.sub info.inputsFee (ε := Error) with
      | err e => exact hsub _ _ _ htarget
      | panic => simp [hrest, htarget] at h
      | ok target =>
          cases hparts : target.split (changeDenominations keysets info.changeOutputs)
              (ε := Error) with
          | err e => exact hsplit _ _ _ hparts
          | panic => simp [hrest, htarget, hparts] at h
          | ok parts => simp [hrest, htarget, hparts] at h

/-- The unsigned outputs that are recorded for a quote have not been signed: a key has one row. -/
theorem anySigned_recorded {info : Db.MeltRequestInfo}
    (hinfo : Db.getMeltRequestAndBlindedMessages quoteId db = .ok (some info, db)) :
    Db.anySigned (info.changeOutputs.map BlindedMessage.blindedSecret) db = .ok (false, db) := by
  rw [Db.getMeltRequestAndBlindedMessages, Tx.read_ok] at hinfo
  obtain ⟨row, -, rfl⟩ := Option.map_eq_some_iff.mp hinfo.1
  rw [Db.anySigned, Tx.read_ok, List.any_eq_false]
  refine ⟨?_, rfl⟩
  intro r hr hp
  have hp' := of_decide_eq_true hp
  simp only [List.map_map, List.mem_map, Function.comp_apply] at hp'
  obtain ⟨⟨r', hr', hkey⟩, hc⟩ := hp'
  obtain ⟨hmem, hres⟩ := List.mem_filter.mp hr'
  have hres' : r'.quoteId = some quoteId ∧ r'.c = none := by simpa [Db.reservedFor] using hres
  rw [← Table.eq_of_key hmem hr hkey, hres'.2] at hc
  cases hc

/-- Booking a payment on a pending quote with its request only depends on the change. -/
theorem payQuote_eq {spent : Amount} {info : Db.MeltRequestInfo}
    (hpending : db.meltState quoteId = some .pending)
    (hinfo : Db.getMeltRequestAndBlindedMessages quoteId db = .ok (some info, db)) :
    payQuote keysets quoteId spent db =
      if spent < info.inputsAmount ∧ info.changeOutputs ≠ [] then
        changeMessages keysets info spent >>= fun messages =>
          .ok (some ⟨quoteId, info.changeOutputs, messages⟩, Db.withMeltState quoteId .paid db)
      else .ok (none, Db.withoutMeltRequest quoteId (Db.withMeltState quoteId .paid db)) := by
  obtain ⟨q, hq, hid, hstate⟩ := Db.meltState_eq_some.mp hpending
  obtain ⟨⟨result, mid⟩, hupd⟩ := Db.exists_updateMeltQuoteState .paid hq hid (by simp [hstate])
    (by rw [hstate]; rfl)
  obtain ⟨_, -, -, -, -, hmid⟩ := Db.updateMeltQuoteState_ok hupd
  rw [if_neg (by decide)] at hmid
  subst hmid
  -- neither the request nor its outputs are touched by the new state of the quote
  have hfound : Db.getMeltRequestAndBlindedMessages quoteId (Db.withMeltState quoteId .paid db) =
      .ok (some info, Db.withMeltState quoteId .paid db) := by
    rw [Db.getMeltRequestAndBlindedMessages, Tx.read_ok] at hinfo ⊢
    exact ⟨hinfo.1, rfl⟩
  rw [payQuote, Tx.bind_of_ok (Tx.mapErr_ok.mpr hupd), Tx.bind_of_ok (Tx.mapErr_ok.mpr hfound),
    Tx.bind_of_ok (Tx.lift_ok.mpr ⟨Outcome.ofOption_some _ info, rfl⟩)]
  by_cases hchange : spent < info.inputsAmount ∧ info.changeOutputs ≠ []
  · have hunsigned : (Tx.ensure (!false) .blindedMessageAlreadySigned : MintTx Unit)
        (Db.withMeltState quoteId .paid db) = .ok ((), Db.withMeltState quoteId .paid db) := rfl
    rw [if_pos hchange, if_pos hchange,
      Tx.bind_of_ok (Tx.mapErr_ok.mpr (anySigned_recorded hfound)), Tx.bind_of_ok hunsigned]
    change (Tx.lift (changeMessages keysets info spent) _ >>= fun r => _) = _
    unfold Tx.lift
    cases changeMessages keysets info spent <;> rfl
  · rw [if_neg hchange, if_neg hchange]
    rfl

theorem payQuote_noErr {spent : Amount} (hpending : db.meltState quoteId = some .pending)
    (hrequest : ∃ row ∈ db.meltRequests.rows, row.quoteId = quoteId) :
    Tx.NoErr (payQuote keysets quoteId spent) db := by
  obtain ⟨row, hrow, hrid⟩ := hrequest
  have hfind : db.meltRequests.find? quoteId = some row := Table.find?_eq_some.mpr ⟨hrow, hrid⟩
  intro e he
  rw [payQuote_eq hpending (Tx.read_ok.mpr ⟨Option.map_eq_some_iff.mpr ⟨row, hfind, rfl⟩, rfl⟩)]
    at he
  split at he
  · cases hmessages : changeMessages keysets _ spent with
    | ok messages =>
        rw [hmessages] at he
        cases he
    | err e' => exact changeMessages_noErr e' hmessages
    | panic =>
        rw [hmessages] at he
        cases he
  · cases he

/-- Burning the proofs of a payable quote fails only when the quote has none, which panics. -/
theorem burnInputs_eq (writer : ProofWriter) (hdb : Payable env quoteId db) :
    ∃ ys original, ys = (db.proofs.rows.filter fun r => r.quoteId = some quoteId).map ProofRow.y ∧
      burnInputs env writer quoteId db = if ys = [] then .err ⟨none, writer⟩ else
        .ok (writer.record ys original, { db with
          proofs := db.proofs.update (Db.setState ys .spent) (Db.setState_y ys .spent) }) := by
  have hrow : ∀ r ∈ db.proofs.rows.filter fun r => r.quoteId = some quoteId,
      r ∈ db.proofs.rows ∧ r.quoteId = some quoteId := by
    intro r hr
    simpa using List.mem_filter.mp hr
  have hround : ∀ r ∈ db.proofs.rows.filter fun r => r.quoteId = some quoteId,
      ∃ y, Outcome.ofOption DbError.nut00 (env.hashToCurve (utf8 r.secret)) = .ok y := by
    intro r hr
    rw [hdb.keyed r (hrow r hr).1]
    exact ⟨r.y, rfl⟩
  obtain ⟨ys, hys⟩ := Outcome.exists_mapM hround
  have hget : Db.getProofYsByQuoteId env quoteId db = .ok (ys, db) := by
    simp only [Db.getProofYsByQuoteId, Tx.bind_ok, Tx.read_ok, Tx.lift_ok]
    exact ⟨_, _, ⟨rfl, rfl⟩, hys, rfl⟩
  have hkeys : ys = (db.proofs.rows.filter fun r => r.quoteId = some quoteId).map ProofRow.y :=
    Db.keys_of_secrets (Db.getProofYsByQuoteId_ok hget).2 fun r hr => hdb.keyed r (hrow r hr).1
  have hallowed : ∀ y ∈ ys, ∃ r ∈ db.proofs.rows, r.y = y ∧
      r.state.transitionAllowed .spent = true := by
    intro y hy
    rw [hkeys] at hy
    obtain ⟨r, hr, rfl⟩ := List.mem_map.mp hy
    exact ⟨r, (hrow r hr).1, rfl, hdb.unspent r (hrow r hr).1 (hrow r hr).2⟩
  have hnd : ys.Nodup := hkeys ▸ (List.filter_sublist.map ProofRow.y).nodup db.proofs.nodup
  obtain ⟨original, hlen, hupd⟩ := Db.exists_updateProofsStates hnd hallowed
  -- no proof of the quote was spent before
  have hcheck : ProofWriter.checkOriginal .spent original = .ok () := by
    unfold ProofWriter.checkOriginal
    rw [if_neg]
    rintro (hspent | ⟨hnew, -⟩)
    · obtain ⟨r, hr, hy, hs⟩ := Db.updateProofsStates_original hupd hspent
      obtain ⟨r', hr', hkey, hok⟩ := hallowed r.y hy
      rw [Table.eq_of_key hr' hr hkey, hs] at hok
      cases hok
    · cases hnew
  have hwriter : writer.updateProofsStates ys .spent db = .ok (writer.record ys original, { db with
      proofs := db.proofs.update (Db.setState ys .spent) (Db.setState_y ys .spent) }) := by
    rw [ProofWriter.updateProofsStates, Tx.bind_of_ok (Tx.mapErr_ok.mpr hupd),
      Tx.bind_of_ok (Tx.ensure_ok (u := ()).mpr ⟨decide_eq_true hlen.symm, rfl⟩),
      Tx.bind_of_ok (Tx.lift_ok.mpr ⟨hcheck, rfl⟩)]
    rfl
  refine ⟨ys, original, hkeys, ?_⟩
  rw [burnInputs, Tx.bind_of_ok (guarded_ok.mpr (Tx.mapErr_ok.mpr hget))]
  by_cases hnil : ys = []
  · subst hnil
    rfl
  · have hsome : (Tx.lift (.expect (some ())) : MintTx Unit) db = .ok ((), db) := rfl
    rw [if_neg hnil, if_neg hnil, Tx.bind_of_ok (guarded_ok.mpr hsome), guarded_ok]
    exact hwriter

/-- Burning the proofs of a payable quote fails only by a panic. -/
theorem burnInputs_err {writer : ProofWriter} {failure : MeltFailure} (hdb : Payable env quoteId db)
    (h : burnInputs env writer quoteId db = .err failure) : failure.error = none := by
  obtain ⟨ys, original, -, heq⟩ := burnInputs_eq writer hdb
  rw [heq] at h
  split at h
  · cases h
    rfl
  · cases h

/-- Booking the payment of a payable quote fails only by a panic. -/
theorem processMeltRequest_err {writer : ProofWriter} {spent : Amount} {failure : MeltFailure}
    (hdb : Payable env quoteId db)
    (h : processMeltRequest env keysets writer quoteId spent db = .err failure) :
    failure.error = none := by
  rw [processMeltRequest, Tx.bind_err] at h
  rcases h with h | ⟨writer', mid, hburn, h⟩
  · exact burnInputs_err hdb h
  obtain ⟨ys, original, -, -, hupd, -⟩ := burnInputs_ok hburn
  obtain ⟨-, -, rfl⟩ := Db.updateProofsStates_ok hupd
  rw [Tx.bind_err] at h
  rcases h with h | ⟨_, _, -, h⟩
  · refine guarded_noErr (payQuote_noErr ?_ ?_) h
    · exact hdb.pending
    · exact hdb.request
  · cases h

theorem settleExternal_err {writer : ProofWriter} {quote : MeltQuote}
    {response : MakePaymentResponse} {failure : MeltFailure} (hdb : Payable env quote.id db)
    (h : settleExternal env keysets writer quote response db = .err failure) :
    failure.error = none := by
  unfold settleExternal at h
  split at h
  · rw [Tx.bind_err] at h
    rcases h with h | ⟨_, named, hlookup, h⟩
    · exact guarded_noErr (Tx.NoErr.mapErr (.write _)) h
    · rw [guarded_ok, Tx.mapErr_ok] at hlookup
      obtain ⟨hstate, hframe⟩ := Db.updateMeltQuoteRequestLookupId_ok hlookup
      refine processMeltRequest_err ?_ h
      have hproofs : named.proofs = db.proofs := by rw [hframe]
      have hrequests : named.meltRequests = db.meltRequests := by rw [hframe]
      exact ⟨hproofs ▸ hdb.keyed, hproofs ▸ hdb.unspent, by rw [hstate]; exact hdb.pending,
        hrequests ▸ hdb.request⟩
  · exact processMeltRequest_err hdb h

end Settling

/-! ## Payments that may have gone out -/

/-- Every input of a request is stored and pending or spent. -/
def InputsHeld (env : Env) (inputs : List Proof) (db : Db) : Prop :=
  ∀ p ∈ inputs, ∃ r ∈ db.proofs.rows, p.y env = some r.y ∧ (r.state = .pending ∨ r.state = .spent)

instance (env : Env) (inputs : List Proof) (db : Db) : Decidable (InputsHeld env inputs db) :=
  inferInstanceAs (Decidable (∀ p ∈ inputs, ∃ r ∈ db.proofs.rows, _ ∧ _))

/-- Every input of a request is stored and spent. -/
def InputsSpent (env : Env) (inputs : List Proof) (db : Db) : Prop :=
  ∀ p ∈ inputs, ∃ r ∈ db.proofs.rows, p.y env = some r.y ∧ r.state = .spent

section Inputs

variable {env : Env} {keysets : Keysets} {inputs : List Proof} {db db' : Db}

theorem InputsSpent.held (h : InputsSpent env inputs db) : InputsHeld env inputs db := by
  intro p hp
  obtain ⟨r, hr, hy, hs⟩ := h p hp
  exact ⟨r, hr, hy, .inr hs⟩

theorem InputsSpent.of_kept (h : InputsSpent env inputs db)
    (hkept : ∀ r ∈ db.proofs.rows, r.state = .spent → r ∈ db'.proofs.rows) :
    InputsSpent env inputs db' := by
  intro p hp
  obtain ⟨r, hr, hy, hs⟩ := h p hp
  exact ⟨r, hkept r hr hs, hy, hs⟩

/-- A spent proof survives every rollback. -/
theorem rollback_spent {writer : ProofWriter} (hgood : writer.Good) (hdb : db.Settled) :
    ∀ r ∈ db.proofs.rows, r.state = .spent → r ∈ (writer.rollback db).2.proofs.rows := by
  intro r hr hs
  rcases rollback_cases hgood hdb with h | ⟨-, h⟩
  · rw [h]
    exact hr
  · rw [h]
    exact Table.mem_delete.mpr ⟨hr, by simp [Db.removable, hs]⟩

/-- Every input has a row among the reserved ones. -/
theorem Db.Reserved.exists_row {quoteId : Option QuoteId} {operation : Operation}
    {rows : List ProofRow} (h : Db.Reserved env inputs quoteId operation rows) {p : Proof}
    (hp : p ∈ inputs) : ∃ r ∈ rows, p.y env = some r.y := by
  have hall := h.inputs
  clear h
  induction hall with
  | nil => cases hp
  | @cons p' r ps rs hr _ ih =>
      rcases List.mem_cons.mp hp with rfl | hp
      · exact ⟨r, by simp, hr.1⟩
      · obtain ⟨r', hr', hy⟩ := ih hp
        exact ⟨r', by simp [hr'], hy⟩

theorem MeltReserved.inputsHeld {request : MeltRequest} {operationId : Uuid} {quote : MeltQuote}
    {rows : List ProofRow} (h : MeltReserved env request operationId quote rows db db') :
    InputsHeld env request.inputs db' := by
  intro p hp
  obtain ⟨r, hr, hy⟩ := h.reserved.exists_row hp
  refine ⟨r, ?_, hy, .inl (h.reserved.pending r hr).1⟩
  rw [h.proofs]
  exact List.mem_append_right _ hr

/-- Settling a reserved melt spends its inputs. -/
theorem MeltReserved.inputsSpent {request : MeltRequest} {operationId : Uuid} {quote : MeltQuote}
    {rows : List ProofRow} {spent : Amount} {change : Option PendingChange} {ys : List PublicKey}
    {settled : Db} (h : MeltReserved env request operationId quote rows db db')
    (hkeyed : ∀ r ∈ db'.proofs.rows, env.hashToCurve (utf8 r.secret) = some r.y)
    (hsettled : MeltSettled env quote.id spent change ys db' settled) :
    InputsSpent env request.inputs settled := by
  intro p hp
  obtain ⟨r, hr, hy⟩ := h.reserved.exists_row hp
  have hmem : r ∈ db'.proofs.rows := by
    rw [h.proofs]
    exact List.mem_append_right _ hr
  have hburnt : r.y ∈ ys := by
    rw [hsettled.burnt hkeyed hmem, h.quoteId]
    exact (h.reserved.pending r hr).2.1
  refine ⟨Db.setState ys .spent r, ?_, by simpa using hy, ?_⟩
  · rw [hsettled.proofs]
    exact List.mem_map_of_mem hmem
  · rw [Db.setState_state, if_pos hburnt]

/-- Signing the change keeps spent proofs, also when it fails. -/
theorem finishChange_spent {writer : ProofWriter} {change : Option PendingChange}
    (hgood : writer.Good) (hdb : db.Settled) (h : InputsSpent env inputs db) :
    InputsSpent env inputs (finishChange env keysets writer change db).2 := by
  have hfail : ∀ result, InputsSpent env inputs (failWith result writer db).2 :=
    fun _ => h.of_kept (rollback_spent hgood hdb)
  unfold finishChange
  split
  · exact h
  · split
    · exact hfail _
    · exact hfail _
    · split
      · exact hfail _
      · exact hfail _
      next stored hstore =>
        have hproofs : stored.proofs = db.proofs := by rw [(storeChange_ok hstore).frame]
        exact h.of_kept fun r hr _ => hproofs ▸ hr

end Inputs

section Reserved

variable {env : Env} {keysets : Keysets} {w : World} {request : MeltRequest} {quote : MeltQuote}
  {rows : List ProofRow} {operationId : Uuid} {db' : Db}

/-- A quote that has just been reserved can be booked. -/
theorem MeltReserved.payable (h : MeltReserved env request operationId quote rows w.db db')
    (hst : Stored env w) (hheld : Held w) : Payable env quote.id db' := by
  refine ⟨(ProofsKept.of_reserved h.reserved h.proofs).keyed hst.keyed, ?_, ?_, ?_⟩
  · intro r hr hq
    rcases h.settled hst.settled r hr with hs | hs
    · rw [hs]
      rfl
    · -- a spent proof of this quote would have made the quote paid before
      exfalso
      rw [h.proofs, List.mem_append] at hr
      rcases hr with hr | hr
      · have hpaid := hheld.spent r hr hs quote.id hq
        rw [h.quoteId] at hpaid
        rcases h.meltable with hm | hm <;> rw [hm] at hpaid <;> cases hpaid
      · rw [(h.reserved.pending r hr).1] at hs
        cases hs
  · rw [h.pending, h.quoteId, Function.update_self]
  · obtain ⟨amount, fee, -, hrows⟩ := h.requests
    refine ⟨⟨request.quote, amount, fee⟩, ?_, h.quoteId.symm⟩
    rw [hrows]
    exact List.mem_append_right _ (List.mem_singleton.mpr rfl)

/-- A payment that may have gone out keeps the inputs. -/
theorem payExternally_open {backend : PaymentBackend} {writer : ProofWriter}
    (h : MeltReserved env request operationId quote rows w.db db') (hst : Stored env w)
    (hheld : Held w) (hgood : writer.Good) (hhanded : outgoingPaymentOptions quote = .ok ())
    (hopen : backend.Open quote)
    (hreturns : (payExternally env keysets backend writer quote db').1 ≠ .panic) :
    InputsHeld env request.inputs (payExternally env keysets backend writer quote db').2 := by
  have hkeyed := (ProofsKept.of_reserved h.reserved h.proofs).keyed hst.keyed
  have hsettled := h.settled hst.settled
  unfold payExternally at hreturns ⊢
  rw [hhanded] at hreturns ⊢
  dsimp only at hreturns ⊢
  rcases decidePayment_open hopen with ⟨response, hdec⟩ | ⟨e, hdec⟩
  · simp only [hdec] at hreturns ⊢
    unfold finishPaid at hreturns ⊢
    cases hs : settleExternal env keysets writer quote response db' with
    | ok r =>
        obtain ⟨⟨writer', change⟩, settled⟩ := r
        obtain ⟨ys, hms⟩ := settleExternal_ok hs
        have hgood' := (settleExternal_good hgood hsettled).1 _ hs
        have hkept : ProofsKept env db' settled := .of_spent hms.allowed hms.proofs
        have hafter := hkept.settled hsettled
        exact (finishChange_spent hgood' hafter (h.inputsSpent hkeyed hms)).held
    | err failure =>
        have hpanic := settleExternal_err (h.payable hst hheld) hs
        simp [hs, failWith, MeltFailure.result, hpanic] at hreturns
    | panic => simp [hs] at hreturns
  · simp only [hdec]
    exact h.inputsHeld

end Reserved

/-- A melt that is handed to a backend keeps its inputs where the payment may have gone out. -/
theorem melt_held_of_open {env : Env} {backends : Backends} {w : World} (hinv : HeldInv env w)
    {backend : PaymentBackend} {now : Nat} {request : MeltRequest} {writer : ProofWriter}
    {quote : MeltQuote} {reserved : Db}
    (hstart : startMelt env w.keysets backends now w.nextId request w.db =
      .ok ((writer, .external quote), reserved))
    (hhanded : outgoingPaymentOptions quote = .ok ()) (hopen : backend.Open quote)
    (hreturns : (melt env w.keysets backends backend now w.nextId request w.db).1 ≠ .panic) :
    InputsHeld env request.inputs
      (melt env w.keysets backends backend now w.nextId request w.db).2 := by
  have hgood := (startMelt_good hinv.stored.settled).1 _ hstart
  obtain ⟨rows, quote', ⟨-, heq, -, hres⟩ | ⟨_, _, _, _, _, heq, -⟩⟩ := startMelt_ok hstart
  · cases heq
    have hmelt : melt env w.keysets backends backend now w.nextId request w.db =
        payExternally env w.keysets backend writer quote reserved := by
      simp only [melt, hstart]
    rw [hmelt] at hreturns ⊢
    exact payExternally_open hres hinv.stored hinv.held hgood hhanded hopen hreturns
  · cases heq

/-- In every run in which only own proofs are deleted: a melt that is handed to a backend and whose
payment may have gone out keeps its inputs pending or spent. -/
theorem melt_keeps_inputs (env : Env) (backends : Backends) (keysets : Keysets)
    (actions : List Action)
    (h : Along (World.step env backends) OwnProofs (World.init keysets) actions)
    (backend : PaymentBackend) (now : Nat) (request : MeltRequest) (writer : ProofWriter)
    (quote : MeltQuote) (reserved : Db)
    (hstart : startMelt env (World.reached env backends keysets actions).keysets backends now
        (World.reached env backends keysets actions).nextId request
        (World.reached env backends keysets actions).db =
      .ok ((writer, .external quote), reserved))
    (hhanded : outgoingPaymentOptions quote = .ok ()) (hopen : backend.Open quote)
    (hreturns : (melt env (World.reached env backends keysets actions).keysets backends backend now
        (World.reached env backends keysets actions).nextId request
        (World.reached env backends keysets actions).db).1 ≠ .panic) :
    InputsHeld env request.inputs
      (melt env (World.reached env backends keysets actions).keysets backends backend now
        (World.reached env backends keysets actions).nextId request
        (World.reached env backends keysets actions).db).2 :=
  melt_held_of_open (heldInv_run h) hstart hhanded hopen hreturns

/-- The payment may have gone out when the backend does not know its state, and the inputs are
given back. -/
theorem melt_unknown_releases_inputs :
    startMelt sampleEnv [sampleKeyset] (fun _ _ => true) 0 1 samplePayment sampleQuoted.db =
        .ok sampleStarted ∧
      (melt sampleEnv [sampleKeyset] (fun _ _ => true) (sampleBackend .unknown) 0 1 samplePayment
        sampleQuoted.db).1 = .err .paymentFailed ∧
      ¬ InputsHeld sampleEnv samplePayment.inputs
        (melt sampleEnv [sampleKeyset] (fun _ _ => true) (sampleBackend .unknown) 0 1 samplePayment
          sampleQuoted.db).2 := by
  decide +kernel

theorem melt_keeps_inputs_pending :
    (melt sampleEnv [sampleKeyset] (fun _ _ => true) (sampleBackend .pending) 0 1 samplePayment
        sampleQuoted.db).1 = .err .pendingQuote ∧
      InputsHeld sampleEnv samplePayment.inputs
        (melt sampleEnv [sampleKeyset] (fun _ _ => true) (sampleBackend .pending) 0 1 samplePayment
          sampleQuoted.db).2 :=
  ⟨by decide +kernel,
    melt_keeps_inputs sampleEnv (fun _ _ => true) [sampleKeyset]
      [.createMeltQuote sampleExternalQuote] (by decide +kernel) (sampleBackend .pending) 0
      samplePayment sampleStarted.1.1 { sampleExternalQuote with state := .pending } sampleStarted.2
      (by decide +kernel) rfl (.inl ⟨.pending, rfl, rfl⟩) (by decide +kernel)⟩

end Cdk
