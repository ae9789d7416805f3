import Cdk.Mint.Rollbacks

/-!
# The checks of a starting mint

A mint that starts asks its backends about the melts that were open when it
stopped, and undoes the swaps whose sagas it finds. The first check writes
states of quotes only, and the second one skips a saga whose inputs cannot be
removed. Both are compared with what a start is meant to leave behind.
-/

namespace Cdk

open Lib

/-! ## Open melts -/

/-- The quotes that a start asks about. -/
def Db.openMelts (db : Db) : List MeltQuote :=
  db.meltQuotes.rows.filter fun q => q.state = .pending ∨ q.state = .unknown

section Answers

variable (backends : Backends) (check : PaymentIdentifier → Option MeltQuoteState)

/-- What the backend reports about the payment of a quote, if it can be asked. -/
def reportedState (q : MeltQuote) : Option MeltQuoteState :=
  if backends q.unit .bolt11 then q.requestLookupId.bind check else none

/-- The check of a quote does not fail. -/
def Answers (q : MeltQuote) : Prop :=
  backends q.unit .bolt11 = true → ∀ lookup, q.requestLookupId = some lookup →
    (check lookup).isSome

/-- No check of an open quote fails. -/
def Db.Answered (db : Db) : Prop := ∀ q ∈ db.openMelts, Answers backends check q

/-- The quote and the proofs stored for it agree with the reported payment. -/
def Reconciled (db db' : Db) (q : MeltQuote) : Prop :=
  match reportedState backends check q with
  | some .paid => db'.meltState q.id = some .paid ∧
      ∀ r ∈ db'.proofs.rows, r.quoteId = some q.id → r.state = .spent
  | some .failed | some .unpaid => db'.meltState q.id = some .unpaid ∧
      ∀ r ∈ db'.proofs.rows, r.quoteId = some q.id → r.state ≠ .pending
  | some .pending | some .unknown | none => q ∈ db'.meltQuotes.rows ∧
      ∀ r, r.quoteId = some q.id → (r ∈ db'.proofs.rows ↔ r ∈ db.proofs.rows)

/-- The proofs of a quote were in the right state before the check, and its payment is not
reported unknown. -/
def Reconcilable (db : Db) (q : MeltQuote) : Prop :=
  match reportedState backends check q with
  | some .paid => db.Answered backends check ∧
      ∀ r ∈ db.proofs.rows, r.quoteId = some q.id → r.state = .spent
  | some .failed | some .unpaid => db.Answered backends check ∧
      ∀ r ∈ db.proofs.rows, r.quoteId = some q.id → r.state ≠ .pending
  | some .pending => db.Answered backends check → q.state = .pending
  | some .unknown => ¬ db.Answered backends check
  | none => True

end Answers

section Checks

variable {backends : Backends} {check : PaymentIdentifier → Option MeltQuoteState} {db db' : Db}

/-- One quote has its new state, and all other quotes and all proofs are as they were. -/
structure QuoteChecked (q : MeltQuote) (state : MeltQuoteState) (db db' : Db) : Prop where
  proofs : db'.proofs = db.proofs
  changed : { q with state := state } ∈ db'.meltQuotes.rows
  kept : ∀ r ∈ db.meltQuotes.rows, r.id ≠ q.id → r ∈ db'.meltQuotes.rows

theorem mem_withMeltState {q : MeltQuote} (id : QuoteId) (state : MeltQuoteState)
    (hq : q ∈ db.meltQuotes.rows) :
    Db.setMeltState id state q ∈ (Db.withMeltState id state db).meltQuotes.rows :=
  List.mem_map_of_mem hq

theorem QuoteChecked.withMeltState {q : MeltQuote} (state : MeltQuoteState)
    (hq : q ∈ db.meltQuotes.rows) : QuoteChecked q state db (Db.withMeltState q.id state db) where
  proofs := rfl
  changed := by
    have hmem := mem_withMeltState q.id state hq
    rwa [Db.setMeltState, if_pos rfl] at hmem
  kept r hr hne := by
    have hmem := mem_withMeltState q.id state hr
    rwa [Db.setMeltState, if_neg hne] at hmem

/-- An open quote may take every state that a check gives. -/
theorem transitionAllowed_afterCheck {state : MeltQuoteState}
    (hopen : state = .pending ∨ state = .unknown) (status : MeltQuoteState)
    (hne : state ≠ stateAfterCheck status) :
    state.transitionAllowed (stateAfterCheck status) = true := by
  rcases hopen with rfl | rfl <;> cases status <;> first | rfl | exact absurd rfl hne

/-- Storing the state of an open quote succeeds, or the quote has that state already. -/
theorem attempt_updateMeltQuoteState {q : MeltQuote} (hq : q ∈ db.meltQuotes.rows)
    (hopen : q.state = .pending ∨ q.state = .unknown) (status : MeltQuoteState) :
    ∃ db', attempt (Db.updateMeltQuoteState q.id (stateAfterCheck status)) db = .ok ((), db') ∧
      QuoteChecked q (stateAfterCheck status) db db' := by
  by_cases hne : q.state = stateAfterCheck status
  · refine ⟨db, ?_, rfl, ?_, fun r hr _ => hr⟩
    · have hnone : (db.meltQuotes.find? q.id).filter
          (fun q => q.state ≠ stateAfterCheck status) = none := by
        rw [Table.find?_eq_some.mpr ⟨hq, rfl⟩]
        simp [Option.filter, hne]
      have herr : Db.updateMeltQuoteState q.id (stateAfterCheck status) db =
          .err .quoteNotFound := by
        rw [Db.updateMeltQuoteState, Tx.bind_err]
        refine .inr ⟨none, db, Tx.read_ok.mpr ⟨hnone, rfl⟩, ?_⟩
        rw [Tx.bind_err]
        exact .inl rfl
      rw [attempt, herr]
    · rw [← hne]
      exact hq
  · obtain ⟨⟨result, db'⟩, hupd⟩ := Db.exists_updateMeltQuoteState (stateAfterCheck status) hq rfl
      hne (transitionAllowed_afterCheck hopen status hne)
    refine ⟨db', by rw [attempt, hupd], ?_⟩
    obtain ⟨_, -, -, -, -, rfl⟩ := Db.updateMeltQuoteState_ok hupd
    split
    · obtain ⟨hproofs, hchanged, hkept⟩ := QuoteChecked.withMeltState (stateAfterCheck status) hq
      exact ⟨hproofs, hchanged, hkept⟩
    · exact .withMeltState _ hq

/-- The state that the check of a quote leaves. -/
def checkedState (backends : Backends) (check : PaymentIdentifier → Option MeltQuoteState)
    (q : MeltQuote) : MeltQuoteState :=
  ((reportedState backends check q).map stateAfterCheck).getD q.state

theorem checkPendingMeltQuote_cases (backends : Backends)
    (check : PaymentIdentifier → Option MeltQuoteState) {q : MeltQuote} (hq : q ∈ db.meltQuotes.rows)
    (hopen : q.state = .pending ∨ q.state = .unknown) :
    (∃ db', checkPendingMeltQuote backends check q db = .ok ((), db') ∧
        QuoteChecked q (checkedState backends check q) db db' ∧ Answers backends check q) ∨
      ((∃ e, checkPendingMeltQuote backends check q db = .err e) ∧
        ¬ Answers backends check q) := by
  have hsame : reportedState backends check q = none →
      QuoteChecked q (checkedState backends check q) db db := by
    intro h
    rw [checkedState, h]
    exact ⟨rfl, hq, fun r hr _ => hr⟩
  by_cases hb : backends q.unit .bolt11 = true
  · cases hl : q.requestLookupId with
    | none =>
        refine .inl ⟨db, ?_, hsame ?_, fun _ lookup h => nomatch hl.symm.trans h⟩
        · rw [checkPendingMeltQuote, if_pos hb, hl]
          rfl
        · rw [reportedState, if_pos hb, hl]
          rfl
    | some lookup =>
        have hreport : reportedState backends check q = check lookup := by
          rw [reportedState, if_pos hb, hl]
          rfl
        cases hc : check lookup with
        | none =>
            refine .inr ⟨⟨.internal, ?_⟩, fun h => ?_⟩
            · rw [checkPendingMeltQuote, if_pos hb]
              simp only [hl, hc]
              rfl
            · have hsome := h hb lookup hl
              rw [hc] at hsome
              cases hsome
        | some status =>
            obtain ⟨db', hok, hchecked⟩ := attempt_updateMeltQuoteState hq hopen status
            refine .inl ⟨db', ?_, ?_, ?_⟩
            · rw [checkPendingMeltQuote, if_pos hb]
              simp only [hl, hc]
              exact hok
            · rw [checkedState, hreport, hc]
              exact hchecked
            · intro _ lookup' h
              rw [← Option.some.inj (hl.symm.trans h), hc]
              rfl
  · refine .inl ⟨db, ?_, hsame ?_, fun h => absurd h hb⟩
    · rw [checkPendingMeltQuote, if_neg hb]
      rfl
    · rw [reportedState, if_neg hb]

/-- All listed quotes have their new states, and the other quotes and the proofs are unchanged. -/
structure QuotesChecked (backends : Backends) (check : PaymentIdentifier → Option MeltQuoteState)
    (quotes : List MeltQuote) (db db' : Db) : Prop where
  proofs : db'.proofs = db.proofs
  changed : ∀ q ∈ quotes, { q with state := checkedState backends check q } ∈ db'.meltQuotes.rows
  kept : ∀ r ∈ db.meltQuotes.rows, r.id ∉ quotes.map MeltQuote.id → r ∈ db'.meltQuotes.rows

/-- The loop over the open quotes: induction on the quotes still to be checked, which the rounds
before have left alone. -/
theorem forM_checkPendingMeltQuote {quotes : List MeltQuote}
    (hmem : ∀ q ∈ quotes, q ∈ db.meltQuotes.rows)
    (hopen : ∀ q ∈ quotes, q.state = .pending ∨ q.state = .unknown)
    (hnd : (quotes.map MeltQuote.id).Nodup) :
    (∃ db', quotes.forM (checkPendingMeltQuote backends check) db = .ok ((), db') ∧
        QuotesChecked backends check quotes db db' ∧ ∀ q ∈ quotes, Answers backends check q) ∨
      ((∃ e, quotes.forM (checkPendingMeltQuote backends check) db = .err e) ∧
        ∃ q ∈ quotes, ¬ Answers backends check q) := by
  induction quotes generalizing db with
  | nil => exact .inl ⟨db, rfl, ⟨rfl, by simp, fun r hr _ => hr⟩, by simp⟩
  | cons q rest ih =>
      rw [List.map_cons, List.nodup_cons] at hnd
      have hcons : (q :: rest).forM (checkPendingMeltQuote backends check) =
          checkPendingMeltQuote backends check q >>= fun _ =>
            rest.forM (checkPendingMeltQuote backends check) := rfl
      rcases checkPendingMeltQuote_cases backends check (hmem q (by simp)) (hopen q (by simp)) with
        ⟨mid, hround, hq, hanswers⟩ | ⟨⟨e, hround⟩, hfails⟩
      · have hrest : ∀ r ∈ rest, r ∈ mid.meltQuotes.rows := by
          intro r hr
          apply hq.kept r (hmem r (by simp [hr]))
          rintro heq
          exact hnd.1 (heq ▸ List.mem_map_of_mem hr)
        rcases ih hrest (fun r hr => hopen r (by simp [hr])) hnd.2 with
          ⟨db', hloop, hchecked, hall⟩ | ⟨⟨e, hloop⟩, r, hr, hfails⟩
        · refine .inl ⟨db', ?_, ⟨hchecked.proofs.trans hq.proofs, ?_, ?_⟩, ?_⟩
          · rw [hcons, Tx.bind_ok]
            exact ⟨(), mid, hround, hloop⟩
          · intro r hr
            rcases List.mem_cons.mp hr with rfl | hr
            · exact hchecked.kept _ hq.changed hnd.1
            · exact hchecked.changed r hr
          · intro r hr hid
            rw [List.map_cons, List.mem_cons, not_or] at hid
            exact hchecked.kept r (hq.kept r hr hid.1) hid.2
          · intro r hr
            rcases List.mem_cons.mp hr with rfl | hr
            · exact hanswers
            · exact hall r hr
        · refine .inr ⟨⟨e, ?_⟩, r, by simp [hr], hfails⟩
          rw [hcons, Tx.bind_err]
          exact .inr ⟨(), mid, hround, hloop⟩
      · refine .inr ⟨⟨e, ?_⟩, q, by simp, hfails⟩
        rw [hcons, Tx.bind_err]
        exact .inl hround

theorem mem_openMelts {q : MeltQuote} : q ∈ db.openMelts ↔
    q ∈ db.meltQuotes.rows ∧ (q.state = .pending ∨ q.state = .unknown) := by
  simp [Db.openMelts]

/-- The check of the open quotes gives all of them their states, or it fails and changes
nothing. -/
theorem commit_checkPendingMeltQuotes (backends : Backends)
    (check : PaymentIdentifier → Option MeltQuoteState) (db : Db) :
    (db.Answered backends check ∧ QuotesChecked backends check db.openMelts db
        (Tx.commit (checkPendingMeltQuotes backends check) db).2) ∨
      (¬ db.Answered backends check ∧
        (Tx.commit (checkPendingMeltQuotes backends check) db).2 = db) := by
  have hnd : (db.openMelts.map MeltQuote.id).Nodup :=
    db.meltQuotes.nodup.sublist (List.filter_sublist.map _)
  have hloop : checkPendingMeltQuotes backends check db =
      db.openMelts.forM (checkPendingMeltQuote backends check) db := rfl
  rw [Tx.commit, hloop]
  rcases forM_checkPendingMeltQuote (fun q hq => (mem_openMelts.mp hq).1)
    (fun q hq => (mem_openMelts.mp hq).2) hnd with ⟨db', hok, hchecked, hall⟩ |
    ⟨⟨e, herr⟩, q, hq, hfails⟩
  · rw [hok]
    exact .inl ⟨hall, hchecked⟩
  · rw [herr]
    exact .inr ⟨fun hall => hfails (hall q hq), rfl⟩

/-- A quote is reconciled exactly when it was reconcilable before the check. -/
theorem reconciled_iff {q : MeltQuote} (hq : q ∈ db.openMelts) :
    Reconciled backends check db (Tx.commit (checkPendingMeltQuotes backends check) db).2 q ↔
      Reconcilable backends check db q := by
  obtain ⟨hmem, hopen⟩ := mem_openMelts.mp hq
  rcases commit_checkPendingMeltQuotes backends check db with ⟨hanswered, hchecked⟩ |
    ⟨hfails, hsame⟩
  · have hnew := hchecked.changed q hq
    have hstate := Db.meltState_of_mem hnew
    have hkept : q ∈ (Tx.commit (checkPendingMeltQuotes backends check) db).2.meltQuotes.rows ↔
        q.state = checkedState backends check q := by
      constructor
      · intro hold
        exact congrArg MeltQuote.state (Table.eq_of_key hold hnew rfl)
      · intro heq
        rw [← heq] at hnew
        exact hnew
    unfold Reconciled Reconcilable
    simp only [hchecked.proofs, hkept, hanswered, true_and, not_true_eq_false, iff_self, implies_true,
      and_true, true_implies]
    cases hr : reportedState backends check q with
    | none => simp [checkedState, hr]
    | some status =>
        rw [checkedState, hr] at hstate
        cases status with
        | unpaid => exact and_iff_right hstate
        | paid => exact and_iff_right hstate
        | pending => simp [checkedState, hr, stateAfterCheck]
        | failed => exact and_iff_right hstate
        | unknown =>
            rcases hopen with h | h <;> simp [checkedState, hr, stateAfterCheck, h]
  · have hstate := Db.meltState_of_mem hmem
    rw [hsame]
    unfold Reconciled Reconcilable
    simp only [hstate, hfails, false_and, hmem, true_and, not_false_eq_true, iff_self, implies_true,
      false_implies, Option.some.injEq]
    cases hr : reportedState backends check q with
    | none => simp
    | some status => cases status <;> rcases hopen with h | h <;> simp [h]

end Checks

/-- A start brings every open quote and its proofs in line with the reported payment exactly when
the proofs were in line before, and a payment reported as pending belongs to a pending quote and
none is reported as unknown, unless the start fails. -/
theorem startup_reconciles_iff (backends : Backends)
    (check : PaymentIdentifier → Option MeltQuoteState) (db : Db) :
    (∀ q ∈ db.openMelts, Reconciled backends check db
        (Tx.commit (checkPendingMeltQuotes backends check) db).2 q) ↔
      ∀ q ∈ db.openMelts, Reconcilable backends check db q :=
  forall₂_congr fun _ hq => reconciled_iff hq

/-- A melt that was handed to its backend when the mint stopped. -/
def sampleInterrupted : Db :=
  (World.reached sampleEnv (fun _ _ => true) [sampleKeyset]
    [.createMeltQuote sampleExternalQuote, .startMelt 0 samplePayment false]).db

/-- The payment went out: the quote is paid and its input stays pending. -/
theorem startup_leaves_inputs_pending :
    (Tx.commit (checkPendingMeltQuotes (fun _ _ => true) fun _ => some .paid)
        sampleInterrupted).2.meltState (.uuid 0) = some .paid ∧
      (Tx.commit (checkPendingMeltQuotes (fun _ _ => true) fun _ => some .paid)
        sampleInterrupted).2.proofs.rows.map ProofRow.state = [.pending] ∧
      ¬ ∀ q ∈ sampleInterrupted.openMelts,
        Reconciled (fun _ _ => true) (fun _ => some .paid) sampleInterrupted
          (Tx.commit (checkPendingMeltQuotes (fun _ _ => true) fun _ => some .paid)
            sampleInterrupted).2 q := by
  refine ⟨by decide +kernel, by decide +kernel, fun h => ?_⟩
  have hq : { sampleExternalQuote with state := .pending } ∈ sampleInterrupted.openMelts := by
    decide +kernel
  have hspent := (h _ hq).2
  revert hspent
  decide +kernel

/-! ## Sagas -/

/-- One round of the recovery: a compensation that fails keeps its saga. -/
def recoverSaga (saga : Saga) (db : Db) : Db :=
  match Tx.commit (removeSwapSetup saga.blindedSecrets saga.inputYs) db with
  | (.ok _, db') => Db.withoutSaga saga.operationId db'
  | (_, db') => db'

/-- `Mint::recover_from_incomplete_sagas` with a database that answers. -/
def recoverFromIncompleteSagas (db : Db) : Db :=
  db.sagas.rows.foldl (fun db saga => recoverSaga saga db) db

/-- What a recovery is meant to leave: no saga, everything that is spent or signed, and nothing
to do for another recovery. -/
structure Recovered (db db' : Db) : Prop where
  sagas : db'.sagas.rows = []
  spent : ∀ r ∈ db.proofs.rows, r.state = .spent → r ∈ db'.proofs.rows
  signed : ∀ r ∈ db.blindSignatures.rows, r.c ≠ none → r ∈ db'.blindSignatures.rows
  again : recoverFromIncompleteSagas db' = db'

/-- The database after the rows of a swap are removed. -/
def Db.withoutSetup (saga : Saga) (db : Db) : Db :=
  { db with
    proofs := db.proofs.delete (Db.removable saga.inputYs)
    blindSignatures := db.blindSignatures.delete (Db.unsigned saga.blindedSecrets) }

section Recovery

variable {db : Db} {saga : Saga}

/-- The keys can be removed when they are different and all stored unspent. -/
theorem Db.removes_iff {ys : List PublicKey} : db.Removes ys ↔
    ys.Nodup ∧ ∀ y ∈ ys, ∃ r ∈ db.proofs.rows, r.y = y ∧ r.state ≠ .spent := by
  have hrows : db.proofs.rows.filter (Db.removable ys) =
      (db.proofs.delete fun r => r.state = .spent).rows.filter fun r => r.y ∈ ys := by
    rw [Table.delete, List.filter_filter]
    apply List.filter_congr
    intro r _
    simp [Db.removable]
  rw [Db.Removes, hrows]
  constructor
  · intro h
    refine ⟨Table.nodup_of_length h, fun y hy => ?_⟩
    obtain ⟨r, hr, hkey⟩ := Table.exists_row_of_length h hy
    obtain ⟨hmem, hs⟩ := Table.mem_delete.mp hr
    exact ⟨r, hmem, hkey, by simpa using hs⟩
  · rintro ⟨hnd, hall⟩
    apply Table.length_filter_eq hnd
    intro y hy
    obtain ⟨r, hr, hkey, hs⟩ := hall y hy
    exact ⟨r, Table.mem_delete.mpr ⟨hr, by simpa using hs⟩, hkey⟩

/-- Removing two lists of keys, one after the other. -/
theorem Db.removes_append {ys zs : List PublicKey} :
    db.Removes (ys ++ zs) ↔ db.Removes ys ∧
      { db with proofs := db.proofs.delete (Db.removable ys) }.Removes zs := by
  simp only [Db.removes_iff, List.nodup_append, List.mem_append, Table.mem_delete]
  constructor
  · rintro ⟨⟨hys, hzs, hdisjoint⟩, hall⟩
    refine ⟨⟨hys, fun y hy => hall y (.inl hy)⟩, hzs, fun z hz => ?_⟩
    obtain ⟨r, hr, rfl, hs⟩ := hall z (.inr hz)
    refine ⟨r, ⟨hr, ?_⟩, rfl, hs⟩
    have hnot : r.y ∉ ys := fun hy => hdisjoint r.y hy r.y hz rfl
    simp [Db.removable, hnot]
  · rintro ⟨⟨hys, hall⟩, hzs, hrest⟩
    refine ⟨⟨hys, hzs, ?_⟩, ?_⟩
    · rintro y hy _ hz rfl
      obtain ⟨r, ⟨hr, hkept⟩, rfl, hs⟩ := hrest y hz
      simp [Db.removable, hy, hs] at hkept
    · rintro y (hy | hz)
      · exact hall y hy
      · obtain ⟨r, ⟨hr, -⟩, hkey, hs⟩ := hrest y hz
        exact ⟨r, hr, hkey, hs⟩

/-- The compensation of a saga succeeds exactly when its inputs can be removed. -/
theorem removeSwapSetup_eq_ok (h : db.Removes saga.inputYs) :
    removeSwapSetup saga.blindedSecrets saga.inputYs db = .ok ((), db.withoutSetup saga) := by
  rw [removeSwapSetup, Tx.bind_ok]
  refine ⟨(), _, Tx.mapErr_ok.mpr (Db.deleteBlindedMessages_ok.mpr rfl), ?_⟩
  exact Tx.mapErr_ok.mpr (Db.removeProofs_of_length h)

theorem recoverSaga_of_removes (h : db.Removes saga.inputYs) :
    recoverSaga saga db = Db.withoutSaga saga.operationId (db.withoutSetup saga) := by
  rw [recoverSaga, Tx.commit, removeSwapSetup_eq_ok h]

theorem recoverSaga_of_not_removes (h : ¬ db.Removes saga.inputYs) : recoverSaga saga db = db := by
  unfold recoverSaga
  split
  next db' hc =>
    rcases Tx.commit_cases (removeSwapSetup saga.blindedSecrets saga.inputYs) db with
      ⟨_, _, hok, -⟩ | ⟨-, -, hne⟩
    · exact absurd (removeSwapSetup_ok hok).found h
    · exact absurd (by rw [hc]) (hne ())
  next db' hc hne =>
    rcases Tx.commit_cases (removeSwapSetup saga.blindedSecrets saga.inputYs) db with
      ⟨_, _, hok, -⟩ | ⟨-, hsame, -⟩
    · exact absurd (removeSwapSetup_ok hok).found h
    · rw [hne] at hsame
      exact hsame

/-- A recovery only deletes, and it spares what is spent or signed. -/
structure RecoveryStep (db db' : Db) : Prop where
  proofs : ∀ r ∈ db'.proofs.rows, r ∈ db.proofs.rows
  sagas : ∀ s ∈ db'.sagas.rows, s ∈ db.sagas.rows
  spent : ∀ r ∈ db.proofs.rows, r.state = .spent → r ∈ db'.proofs.rows
  signed : ∀ r ∈ db.blindSignatures.rows, r.c ≠ none → r ∈ db'.blindSignatures.rows

theorem RecoveryStep.refl (db : Db) : RecoveryStep db db :=
  ⟨fun _ h => h, fun _ h => h, fun _ h _ => h, fun _ h _ => h⟩

theorem RecoveryStep.trans {db db' db'' : Db} (h : RecoveryStep db db')
    (h' : RecoveryStep db' db'') : RecoveryStep db db'' where
  proofs r hr := h.proofs r (h'.proofs r hr)
  sagas s hs := h.sagas s (h'.sagas s hs)
  spent r hr hs := h'.spent r (h.spent r hr hs) hs
  signed r hr hc := h'.signed r (h.signed r hr hc) hc

theorem recoverSaga_step (saga : Saga) (db : Db) : RecoveryStep db (recoverSaga saga db) := by
  by_cases h : db.Removes saga.inputYs
  · rw [recoverSaga_of_removes h]
    constructor
    · exact fun r hr => (Table.mem_delete.mp hr).1
    · exact fun s hs => (Table.mem_delete.mp hs).1
    · exact fun r hr hs => Table.mem_delete.mpr ⟨hr, by simp [Db.removable, hs]⟩
    · exact fun r hr hc => Table.mem_delete.mpr ⟨hr, by simp [Db.unsigned, hc]⟩
  · rw [recoverSaga_of_not_removes h]
    exact .refl db

/-- A round deletes at most its own saga. -/
theorem recoverSaga_others {s : Saga} (hs : s ∈ db.sagas.rows)
    (hne : s.operationId ≠ saga.operationId) : s ∈ (recoverSaga saga db).sagas.rows := by
  by_cases h : db.Removes saga.inputYs
  · rw [recoverSaga_of_removes h]
    exact Table.mem_delete.mpr ⟨hs, by simpa using hne⟩
  · rw [recoverSaga_of_not_removes h]
    exact hs

/-- The rounds over some sagas. -/
def recoverSagas (sagas : List Saga) (db : Db) : Db :=
  sagas.foldl (fun db saga => recoverSaga saga db) db

@[simp] theorem recoverSagas_cons {sagas : List Saga} :
    recoverSagas (saga :: sagas) db = recoverSagas sagas (recoverSaga saga db) := rfl

theorem recoverSagas_step (sagas : List Saga) (db : Db) :
    RecoveryStep db (recoverSagas sagas db) := by
  induction sagas generalizing db with
  | nil => exact .refl db
  | cons saga rest ih => exact (recoverSaga_step saga db).trans (ih _)

theorem recoverSagas_others {sagas : List Saga} {s : Saga} (hs : s ∈ db.sagas.rows)
    (hne : s.operationId ∉ sagas.map Saga.operationId) :
    s ∈ (recoverSagas sagas db).sagas.rows := by
  induction sagas generalizing db with
  | nil => exact hs
  | cons saga rest ih =>
      rw [List.map_cons, List.mem_cons, not_or] at hne
      exact ih (recoverSaga_others hs hne.1) hne.2

/-- A saga whose inputs can be removed is gone after its round. -/
theorem mem_recoverSaga_iff (hs : saga ∈ db.sagas.rows) :
    saga ∈ (recoverSaga saga db).sagas.rows ↔ ¬ db.Removes saga.inputYs := by
  by_cases h : db.Removes saga.inputYs
  · rw [recoverSaga_of_removes h]
    simp [Db.withoutSaga, h]
  · rw [recoverSaga_of_not_removes h]
    simp [hs, h]

/-- The recovery gets rid of all listed sagas exactly when all their inputs can be removed
together: induction on the sagas that are left, each round removing its own inputs. -/
theorem recoverSagas_all_iff {sagas : List Saga} (hmem : ∀ s ∈ sagas, s ∈ db.sagas.rows)
    (hnd : (sagas.map Saga.operationId).Nodup) :
    (∀ s ∈ sagas, s ∉ (recoverSagas sagas db).sagas.rows) ↔
      db.Removes (sagas.flatMap Saga.inputYs) := by
  induction sagas generalizing db with
  | nil => simp [Db.removes_iff]
  | cons saga rest ih =>
      rw [List.map_cons, List.nodup_cons] at hnd
      have hsaga := hmem saga (by simp)
      have hkept : ∀ s ∈ rest, s ∈ (recoverSaga saga db).sagas.rows := by
        intro s hs
        apply recoverSaga_others (hmem s (by simp [hs]))
        intro heq
        exact hnd.1 (heq ▸ List.mem_map_of_mem hs)
      have hfirst : saga ∉ (recoverSagas rest (recoverSaga saga db)).sagas.rows ↔
          db.Removes saga.inputYs := by
        constructor
        · intro hgone
          by_contra h
          exact hgone (recoverSagas_others ((mem_recoverSaga_iff hsaga).mpr h) hnd.1)
        · intro h hleft
          exact (mem_recoverSaga_iff hsaga).mp ((recoverSagas_step rest _).sagas saga hleft) h
      rw [List.forall_mem_cons, recoverSagas_cons, hfirst, ih hkept hnd.2, List.flatMap_cons,
        Db.removes_append]
      apply and_congr_right
      intro h
      rw [recoverSaga_of_removes h]
      rfl

/-- What can be removed after a recovery could be removed before. -/
theorem RecoveryStep.removes {db' : Db} {ys : List PublicKey} (h : RecoveryStep db db')
    (hys : db'.Removes ys) : db.Removes ys := by
  rw [Db.removes_iff] at hys ⊢
  refine ⟨hys.1, fun y hy => ?_⟩
  obtain ⟨r, hr, hkey⟩ := hys.2 y hy
  exact ⟨r, h.proofs r hr, hkey⟩

/-- A saga that survives the rounds still has an input that cannot be removed. -/
theorem recoverSagas_left {sagas : List Saga} {s : Saga} (hs : s ∈ sagas)
    (hleft : s ∈ (recoverSagas sagas db).sagas.rows) :
    ¬ (recoverSagas sagas db).Removes s.inputYs := by
  induction sagas generalizing db with
  | nil => cases hs
  | cons saga rest ih =>
      rcases List.mem_cons.mp hs with rfl | hs
      · have hround := (recoverSagas_step rest (recoverSaga s db)).sagas s hleft
        have hnot := (mem_recoverSaga_iff ((recoverSaga_step s db).sagas s hround)).mp hround
        exact fun h => hnot ((recoverSagas_step (s :: rest) db).removes h)
      · exact ih hs hleft

/-- Rounds over sagas that cannot be undone change nothing. -/
theorem recoverSagas_idle {sagas : List Saga} (h : ∀ s ∈ sagas, ¬ db.Removes s.inputYs) :
    recoverSagas sagas db = db := by
  induction sagas with
  | nil => rfl
  | cons saga rest ih =>
      rw [recoverSagas_cons, recoverSaga_of_not_removes (h saga (by simp))]
      exact ih fun s hs => h s (by simp [hs])

/-- A second recovery changes nothing. -/
theorem recover_recover (db : Db) :
    recoverFromIncompleteSagas (recoverFromIncompleteSagas db) = recoverFromIncompleteSagas db := by
  apply recoverSagas_idle
  intro s hs
  exact recoverSagas_left ((recoverSagas_step db.sagas.rows db).sagas s hs) hs

theorem recovered_iff (db : Db) :
    Recovered db (recoverFromIncompleteSagas db) ↔
      db.Removes (db.sagas.rows.flatMap Saga.inputYs) := by
  have hstep := recoverSagas_step db.sagas.rows db
  rw [← recoverSagas_all_iff (fun s hs => hs) db.sagas.nodup]
  constructor
  · intro h s _ hleft
    have hnil : (recoverSagas db.sagas.rows db).sagas.rows = [] := h.sagas
    rw [hnil] at hleft
    cases hleft
  · intro h
    refine ⟨?_, hstep.spent, hstep.signed, recover_recover db⟩
    apply List.eq_nil_iff_forall_not_mem.mpr
    intro s hleft
    exact h s (hstep.sagas s hleft) hleft

end Recovery

/-! ### The recovery as a schedule -/

/-- The task that a restart leaves for a saga. -/
def Saga.recovery (saga : Saga) : Compensation := ⟨saga, true, false⟩

/-- The task once the rows of the saga are removed. -/
def Saga.undone (saga : Saga) : Compensation := ⟨saga, true, true⟩

/-- The two steps of a round. -/
def Saga.recoveryActions (saga : Saga) : List Action :=
  [.compensate saga.recovery false, .deleteSaga saga.undone false]

section Schedule

variable {env : Env} {backends : Backends} {w : World} {saga : Saga}

theorem compensate_recovery_ok (h : w.db.Removes saga.inputYs) :
    w.compensate saga.recovery false = { w with
      db := w.db.withoutSetup saga
      compensations := w.compensations.erase saga.recovery ++ [saga.undone] } := by
  unfold World.compensate
  dsimp only [Saga.recovery, Saga.undone]
  rw [removeSwapSetup_eq_ok h]

theorem compensate_recovery_err (h : ¬ w.db.Removes saga.inputYs) :
    w.compensate saga.recovery false =
      { w with compensations := w.compensations.erase saga.recovery } := by
  unfold World.compensate
  dsimp only
  split
  next hok => exact absurd (removeSwapSetup_ok hok).found h
  next => rfl

/-- A round of the recovery is what its two steps do to a mint whose next task is that saga. -/
theorem run_recoveryActions {rest : List Saga}
    (h : w.compensations = (saga :: rest).map Saga.recovery) :
    run (World.step env backends) w saga.recoveryActions =
      { w with db := recoverSaga saga w.db, compensations := rest.map Saga.recovery } := by
  have herase : w.compensations.erase saga.recovery = rest.map Saga.recovery := by
    rw [h, List.map_cons, List.erase_cons_head]
  have hfresh : saga.undone ∉ rest.map Saga.recovery := by
    intro hmem
    obtain ⟨other, -, heq⟩ := List.mem_map.mp hmem
    have hremoved : false = true := congrArg Compensation.removed heq
    cases hremoved
  have hin : saga.recovery ∈ w.compensations := by simp [h]
  have hfirst : World.step env backends w (.compensate saga.recovery false) =
      w.compensate saga.recovery false := if_pos ⟨hin, rfl⟩
  rw [Saga.recoveryActions, run_cons, run_cons, run_nil, hfirst]
  by_cases hr : w.db.Removes saga.inputYs
  · rw [compensate_recovery_ok hr, herase, recoverSaga_of_removes hr]
    have hsecond : ∀ w' : World, saga.undone ∈ w'.compensations →
        World.step env backends w' (.deleteSaga saga.undone false) =
          w'.deleteSaga saga.undone false := fun w' hmem => if_pos ⟨hmem, rfl⟩
    rw [hsecond _ (by simp), World.deleteSaga]
    dsimp only
    rw [List.erase_append_right _ hfresh, List.erase_cons_head, List.append_nil]
    rfl
  · rw [compensate_recovery_err hr, herase, recoverSaga_of_not_removes hr]
    exact if_neg fun hmem => hfresh hmem.1

theorem run_recovery (sagas : List Saga) (h : w.compensations = sagas.map Saga.recovery) :
    run (World.step env backends) w (sagas.flatMap Saga.recoveryActions) =
      { w with db := recoverSagas sagas w.db, compensations := [] } := by
  induction sagas generalizing w with
  | nil =>
      have hw : { w with db := recoverSagas [] w.db, compensations := [] } = w := by
        rw [← List.map_nil (f := Saga.recovery), ← h]
        rfl
      rw [hw]
      rfl
  | cons saga rest ih =>
      rw [List.flatMap_cons, run_append, run_recoveryActions h, ih rfl]
      rfl

/-- A mint that restarts and lets its recovery run to the end has checked its open quotes and
recovered its sagas. -/
theorem restart_recovers {check : PaymentIdentifier → Option MeltQuoteState}
    (h : w.db.Answered backends check) :
    ∃ actions, (run (World.step env backends) w (.restart check :: actions)).db =
      recoverFromIncompleteSagas (Tx.commit (checkPendingMeltQuotes backends check) w.db).2 := by
  rcases Tx.commit_cases (checkPendingMeltQuotes backends check) w.db with
    ⟨_, db', hok, hc⟩ | ⟨hne, -, -⟩
  · refine ⟨db'.sagas.rows.flatMap Saga.recoveryActions, ?_⟩
    have hstart : World.step env backends w (.restart check) = { w with
        db := db'
        swaps := []
        compensations := db'.sagas.rows.map Saga.recovery
        melts := []
        rollbacks := [] } := by
      simp only [World.step, World.restart, hok]
      rfl
    rw [run_cons, hstart, run_recovery _ rfl, hc]
    rfl
  · exfalso
    have hnd : (w.db.openMelts.map MeltQuote.id).Nodup :=
      w.db.meltQuotes.nodup.sublist (List.filter_sublist.map _)
    rcases forM_checkPendingMeltQuote (fun q hq => (mem_openMelts.mp hq).1)
      (fun q hq => (mem_openMelts.mp hq).2) hnd with ⟨db', hok, -⟩ | ⟨-, q, hq, hfails⟩
    · exact hne _ hok
    · exact hfails (h q hq)

end Schedule

/-- In every state that a run reaches, the recovery leaves no saga, spares what is spent or signed
and has nothing left to do exactly when every input that a saga names is stored and unspent and no
input is named twice. -/
theorem recovery_converges_iff (env : Env) (backends : Backends) (keysets : Keysets)
    (actions : List Action) :
    Recovered (World.reached env backends keysets actions).db
        (recoverFromIncompleteSagas (World.reached env backends keysets actions).db) ↔
      ((World.reached env backends keysets actions).db.sagas.rows.flatMap Saga.inputYs).Nodup ∧
        ∀ saga ∈ (World.reached env backends keysets actions).db.sagas.rows,
          ∀ y ∈ saga.inputYs, ∃ r ∈ (World.reached env backends keysets actions).db.proofs.rows,
            r.y = y ∧ r.state ≠ .spent := by
  rw [recovered_iff, Db.removes_iff]
  apply and_congr_right
  intro _
  simp only [List.mem_flatMap]
  exact ⟨fun h saga hs y hy => h y ⟨saga, hs, hy⟩, fun h y ⟨saga, hs, hy⟩ => h saga hs y hy⟩

/-- A swap completes, but its saga is not deleted. -/
def sampleOrphan : List Action :=
  [.setupSwap 0 ⟨[sampleProof 8 "a"], [sampleMessage 8 20]⟩,
    .signSwap ⟨⟨0, [sampleMessage 8 20], [sampleY]⟩, none⟩ false,
    .finalizeSwap ⟨⟨0, [sampleMessage 8 20], [sampleY]⟩, some [⟨8, .v1 1, ⟨false, 21⟩⟩]⟩
      (some (.deleteSaga, .internal))]

/-- The recovery skips the orphaned saga, whose input is spent. -/
theorem recovery_keeps_orphan :
    (World.reached sampleEnv (fun _ _ => true) [sampleKeyset] sampleOrphan).db.proofs.rows.map
        ProofRow.state = [.spent] ∧
      (recoverFromIncompleteSagas (World.reached sampleEnv (fun _ _ => true) [sampleKeyset]
        sampleOrphan).db).sagas.rows = [⟨0, [⟨false, 20⟩], [sampleY]⟩] ∧
      ¬ Recovered (World.reached sampleEnv (fun _ _ => true) [sampleKeyset] sampleOrphan).db
        (recoverFromIncompleteSagas (World.reached sampleEnv (fun _ _ => true) [sampleKeyset]
          sampleOrphan).db) := by
  refine ⟨by decide +kernel, by decide +kernel, fun h => ?_⟩
  have hnone := h.sagas
  revert hnone
  decide +kernel

end Cdk
