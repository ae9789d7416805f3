import Cdk.Mint.StateQueries
import Cdk.Mint.StatementsKept

/-!
# What a mint never takes back

Spent proofs, signed messages, paid quotes, recorded payments and the counters
of the mint quotes only grow: whatever requests run, in whatever order their
transactions commit, and however often the mint restarts. So a wallet that
restores later finds at least the signatures that it found before.
-/

namespace Cdk

open Lib

namespace Db

/-- The amounts that a mint quote counts, zero for a quote that is not stored. -/
def counted (db : Db) (id : QuoteId) (f : MintQuote → Amount) : Nat :=
  ((db.mintQuotes.find? id).map fun q => (f q).toNat).getD 0

/-- What is final in one database is in another. -/
structure Extends (db db' : Db) : Prop where
  spent : ∀ r ∈ db.proofs.rows, r.state = .spent → r ∈ db'.proofs.rows
  signed : ∀ r ∈ db.blindSignatures.rows, r.c.isSome → r ∈ db'.blindSignatures.rows
  melted : ∀ id, db.meltState id = some .paid → db'.meltState id = some .paid
  payments : ∀ r ∈ db.payments.rows, r ∈ db'.payments.rows
  paid : ∀ id, db.counted id MintQuote.amountPaid ≤ db'.counted id MintQuote.amountPaid
  issued : ∀ id, db.counted id MintQuote.amountIssued ≤ db'.counted id MintQuote.amountIssued

namespace Extends

theorem refl (db : Db) : Extends db db where
  spent _ h _ := h
  signed _ h _ := h
  melted _ h := h
  payments _ h := h
  paid _ := Nat.le_refl _
  issued _ := Nat.le_refl _

theorem trans {db db' db'' : Db} (h : Extends db db') (h' : Extends db' db'') :
    Extends db db'' where
  spent r hr hs := h'.spent r (h.spent r hr hs) hs
  signed r hr hs := h'.signed r (h.signed r hr hs) hs
  melted id hid := h'.melted id (h.melted id hid)
  payments r hr := h'.payments r (h.payments r hr)
  paid id := (h.paid id).trans (h'.paid id)
  issued id := (h.issued id).trans (h'.issued id)

instance : IsPreorder Db Extends where
  refl := refl
  trans _ _ _ := trans

variable {db db' : Db}

/-! ### Writes to one table -/

theorem of_proofs {t : Table ProofRow.y}
    (h : ∀ r ∈ db.proofs.rows, r.state = .spent → r ∈ t.rows) :
    Extends db { db with proofs := t } :=
  { refl db with spent := h }

theorem of_signatures {t : Table SignatureRow.blindedMessage}
    (h : ∀ r ∈ db.blindSignatures.rows, r.c.isSome → r ∈ t.rows) :
    Extends db { db with blindSignatures := t } :=
  { refl db with signed := h }

private theorem counted_le {t : Table MintQuote.id} {f : MintQuote → Amount}
    (h : ∀ q ∈ db.mintQuotes.rows, ∃ q' ∈ t.rows, q'.id = q.id ∧ (f q).toNat ≤ (f q').toNat)
    (id : QuoteId) : db.counted id f ≤ counted { db with mintQuotes := t } id f := by
  unfold counted
  cases hq : db.mintQuotes.find? id with
  | none => exact Nat.zero_le _
  | some q =>
      obtain ⟨hmem, rfl⟩ := Table.find?_eq_some.mp hq
      obtain ⟨q', hq', hid, hle⟩ := h q hmem
      rw [Table.find?_eq_some.mpr ⟨hq', hid⟩]
      exact hle

/-- Each quote is stored with amounts that are not lower. -/
theorem of_mintQuotes {t : Table MintQuote.id}
    (h : ∀ q ∈ db.mintQuotes.rows, ∃ q' ∈ t.rows, q'.id = q.id ∧
      q.amountPaid.toNat ≤ q'.amountPaid.toNat ∧ q.amountIssued.toNat ≤ q'.amountIssued.toNat) :
    Extends db { db with mintQuotes := t } :=
  { refl db with
    paid := counted_le fun q hq => (h q hq).imp fun _ hq' => ⟨hq'.1, hq'.2.1, hq'.2.2.1⟩
    issued := counted_le fun q hq => (h q hq).imp fun _ hq' => ⟨hq'.1, hq'.2.1, hq'.2.2.2⟩ }

/-- Unsigned messages are deleted, with anything that is not final. -/
theorem withoutMeltRequest (quoteId : QuoteId) (db : Db) :
    Extends db (Db.withoutMeltRequest quoteId db) :=
  { refl db with
    signed := by
      intro r hr hs
      refine Table.mem_delete.mpr ⟨hr, ?_⟩
      cases hc : r.c with
      | none => simp [hc] at hs
      | some _ => simp [reservedFor, hc] }

/-- A paid quote stays paid, since no transition leaves that state. -/
theorem withMeltState {quoteId : QuoteId} {state : MeltQuoteState} {q : MeltQuote}
    (hq : q ∈ db.meltQuotes.rows) (hid : q.id = quoteId)
    (hallowed : q.state.transitionAllowed state = true) :
    Extends db (Db.withMeltState quoteId state db) :=
  { refl db with
    melted := by
      intro id hpaid
      rw [meltState_withMeltState hq hid]
      by_cases hne : id = quoteId
      · subst hne
        rw [← hid, meltState_of_mem hq, Option.some.injEq] at hpaid
        rw [hpaid] at hallowed
        cases hallowed
      · rwa [Function.update_of_ne hne] }

end Extends

/-! ## Statements -/

section Statements

theorem addProofs_extends (env : Env) (proofs : List Proof) (quoteId : Option QuoteId)
    (operation : Operation) : Tx.KeepsTo Extends (addProofs env proofs quoteId operation) := by
  intro db u db' h
  obtain ⟨rows, t, -, ht, rfl⟩ := addProofs_ok h
  refine .of_proofs fun r hr _ => ?_
  rw [Table.insertAll?_rows ht]
  exact List.mem_append_left _ hr

/-- A spent proof is in no transition. -/
theorem updateProofsStates_extends (ys : List PublicKey) (new : State) :
    Tx.KeepsTo Extends (updateProofsStates ys new) := by
  intro db original db' h
  obtain ⟨-, hallowed, rfl⟩ := updateProofsStates_ok h
  refine .of_proofs fun r hr hs => List.mem_map.mpr ⟨r, hr, if_neg ?_⟩
  intro hy
  have hno := hallowed r hr hy
  rw [hs] at hno
  cases hno

theorem removeProofs_extends (ys : List PublicKey) : Tx.KeepsTo Extends (removeProofs ys) := by
  intro db u db' h
  obtain ⟨-, rfl⟩ := removeProofs_ok h
  refine .of_proofs fun r hr hs => Table.mem_delete.mpr ⟨hr, ?_⟩
  simp [removable, hs]

theorem addBlindedMessages_extends (quoteId : Option QuoteId) (messages : List BlindedMessage)
    (operation : Operation) :
    Tx.KeepsTo Extends (addBlindedMessages quoteId messages operation) := by
  intro db u db' h
  obtain ⟨t, ht, rfl⟩ := addBlindedMessages_ok h
  refine .of_signatures fun r hr _ => ?_
  rw [Table.insertAll?_rows ht]
  exact List.mem_append_left _ hr

theorem deleteBlindedMessages_extends (secrets : List PublicKey) :
    Tx.KeepsTo Extends (deleteBlindedMessages secrets) := by
  intro db u db' h
  rw [deleteBlindedMessages_ok.mp h]
  refine .of_signatures fun r hr hs => Table.mem_delete.mpr ⟨hr, ?_⟩
  cases hc : r.c with
  | none => simp [hc] at hs
  | some _ => simp [unsigned, hc]

/-- A signed message is never signed again. -/
theorem addBlindSignature_extends (quoteId : Option QuoteId)
    (entry : PublicKey × BlindSignature) :
    Tx.KeepsTo Extends (addBlindSignature quoteId entry) := by
  intro db u db' h
  rcases addBlindSignature_ok h with ⟨t, -, hrows, rfl⟩ | ⟨unsignedRow, hmem, hkey, hc, rfl⟩
  · refine .of_signatures fun r hr _ => ?_
    rw [hrows]
    exact List.mem_append_left _ hr
  · refine .of_signatures fun r hr hs => List.mem_map.mpr ⟨r, hr, if_neg ?_⟩
    intro hsame
    rw [db.blindSignatures.eq_of_key hr hmem (hsame.trans hkey.symm), hc] at hs
    cases hs

theorem addBlindSignatures_extends (messages : List PublicKey) (signatures : List BlindSignature)
    (quoteId : Option QuoteId) :
    Tx.KeepsTo Extends (addBlindSignatures messages signatures quoteId) :=
  (Tx.KeepsTo.ensure _ _).bind fun _ => Tx.KeepsTo.forM (addBlindSignature_extends quoteId) _

theorem incrementMintQuoteAmountPaid_extends (quoteId : QuoteId) (amount : Amount)
    (paymentId : String) :
    Tx.KeepsTo Extends (incrementMintQuoteAmountPaid quoteId amount paymentId) := by
  intro db paid db' h
  obtain ⟨t, hrows, hpaid, rfl⟩ := incrementMintQuoteAmountPaid_ok h
  have hquotes : Extends db { db with
      mintQuotes := db.mintQuotes.update (setPaid quoteId paid) (setPaid_id quoteId paid) } := by
    refine .of_mintQuotes fun q hq => ⟨_, List.mem_map_of_mem hq, setPaid_id _ _ _, ?_⟩
    by_cases hid : q.id = quoteId
    · rw [setPaid, if_pos hid]
      exact ⟨Nat.le.intro (hpaid q hq hid).symm, Nat.le_refl _⟩
    · rw [setPaid, if_neg hid]
      exact ⟨Nat.le_refl _, Nat.le_refl _⟩
  refine hquotes.trans { Extends.refl _ with payments := fun r hr => ?_ }
  rw [hrows]
  exact List.mem_append_left _ hr

theorem incrementMintQuoteAmountIssued_extends (quoteId : QuoteId) (amount : Amount) :
    Tx.KeepsTo Extends (incrementMintQuoteAmountIssued quoteId amount) := by
  intro db issued db' h
  obtain ⟨quote, hquote, hkey, hissued, -, rfl⟩ := incrementMintQuoteAmountIssued_ok h
  have hquotes : Extends db { db with
      mintQuotes := db.mintQuotes.update (setIssued quoteId issued)
        (setIssued_id quoteId issued) } := by
    refine .of_mintQuotes fun q hq => ⟨_, List.mem_map_of_mem hq, setIssued_id _ _ _, ?_⟩
    by_cases hid : q.id = quoteId
    · rw [db.mintQuotes.eq_of_key hq hquote (hid.trans hkey.symm), setIssued, if_pos hkey]
      exact ⟨Nat.le_refl _, Nat.le.intro hissued.symm⟩
    · rw [setIssued, if_neg hid]
      exact ⟨Nat.le_refl _, Nat.le_refl _⟩
  exact hquotes.trans { Extends.refl _ with }

theorem addMintQuote_extends (quote : MintQuote) : Tx.KeepsTo Extends (addMintQuote quote) := by
  intro db u db' h
  obtain ⟨t, q, -, -, -, -, hrows, rfl⟩ := addMintQuote_ok h
  refine .of_mintQuotes fun q' hq' => ⟨q', ?_, rfl, Nat.le_refl _, Nat.le_refl _⟩
  rw [hrows]
  exact List.mem_append_left _ hq'

theorem addMeltQuote_extends (quote : MeltQuote) : Tx.KeepsTo Extends (addMeltQuote quote) := by
  intro db u db' h
  obtain ⟨t, hrows, rfl⟩ := addMeltQuote_ok h
  refine { Extends.refl db with melted := fun id hid => ?_ }
  obtain ⟨q, hq, hid, hs⟩ := meltState_eq_some.mp hid
  refine meltState_eq_some.mpr ⟨q, ?_, hid, hs⟩
  rw [hrows]
  exact List.mem_append_left _ hq

theorem addMeltRequest_extends (quoteId : QuoteId) (inputsAmount inputsFee : Amount) :
    Tx.KeepsTo Extends (addMeltRequest quoteId inputsAmount inputsFee) := by
  intro db u db' h
  obtain ⟨t, -, -, rfl⟩ := addMeltRequest_ok h
  exact { Extends.refl db with }

theorem updateMeltQuoteState_extends (quoteId : QuoteId) (state : MeltQuoteState) :
    Tx.KeepsTo Extends (updateMeltQuoteState quoteId state) := by
  intro db result db' h
  obtain ⟨q, hq, hid, hallowed, -, rfl⟩ := updateMeltQuoteState_ok h
  have hs := Extends.withMeltState hq hid hallowed
  split
  · exact hs.trans (.withoutMeltRequest quoteId _)
  · exact hs

theorem updateMeltQuoteRequestLookupId_extends (quoteId : QuoteId) (lookup : PaymentIdentifier) :
    Tx.KeepsTo Extends (updateMeltQuoteRequestLookupId quoteId lookup) := by
  intro db u db' h
  obtain ⟨hstate, hframe⟩ := updateMeltQuoteRequestLookupId_ok h
  rw [hframe]
  exact { Extends.refl db with melted := fun id hid => (congrFun hstate id).trans hid }

theorem addSaga_extends (saga : Saga) : Tx.KeepsTo Extends (addSaga saga) := by
  intro db u db' h
  obtain ⟨t, -, -, rfl⟩ := addSaga_ok h
  exact { Extends.refl db with }

theorem deleteSagaUnless_extends (keep : Bool) (operationId : Uuid) (db : Db) :
    Extends db (deleteSagaUnless keep operationId db) := by
  unfold deleteSagaUnless
  split
  · exact .refl db
  · exact { Extends.refl db with }

theorem Extends.keptBy : KeptBy Extends where
  addProofs := addProofs_extends
  updateProofsStates := updateProofsStates_extends
  removeProofs := removeProofs_extends
  addBlindedMessages quoteId messages operation _ :=
    addBlindedMessages_extends quoteId messages operation
  deleteBlindedMessages := deleteBlindedMessages_extends
  addBlindSignatures := addBlindSignatures_extends
  incrementMintQuoteAmountPaid := incrementMintQuoteAmountPaid_extends
  addMintQuote := addMintQuote_extends
  addMeltQuote := addMeltQuote_extends
  addMeltRequest := addMeltRequest_extends
  updateMeltQuoteState := updateMeltQuoteState_extends
  updateMeltQuoteRequestLookupId := updateMeltQuoteRequestLookupId_extends
  withoutMeltRequest := .withoutMeltRequest
  addSaga := addSaga_extends
  deleteSagaUnless := deleteSagaUnless_extends

end Statements

end Db

/-! ## Runs -/

section Runs

open Db

variable (env : Env) (backends : Backends) (w : World)

theorem signAndIssue_extends (keysets signing : Keysets) (operationId : Uuid)
    (request : MintRequest) :
    Tx.KeepsTo Extends (signAndIssue env keysets signing operationId request) := by
  refine (Tx.KeepsTo.lift _).bind fun signatures => .bind ?_ fun _ => .pure signatures
  refine (Tx.KeepsTo.read _).bind fun found => (Tx.KeepsTo.lift _).bind fun quote => ?_
  refine (Tx.KeepsTo.lift _).bind fun mintable => (verifyOutputs_keeps _).bind fun outputs => ?_
  refine (Tx.KeepsTo.ensure _ _).bind fun _ => (Tx.KeepsTo.lift _).bind fun unit => ?_
  refine (Tx.KeepsTo.ensure _ _).bind fun _ => ?_
  refine (addBlindedMessages_extends _ _ _).mapErr.bind fun _ => ?_
  refine (addBlindSignatures_extends _ _ _).mapErr.bind fun _ => ?_
  refine (Tx.KeepsTo.lift _).bind fun total => ?_
  exact (incrementMintQuoteAmountIssued_extends _ _).mapErr.bind fun _ => .pure ()

/-- No step takes back what is final. -/
theorem World.step_extends (a : Action) : Extends w.db (w.step env backends a).db :=
  w.step_keeps env backends Extends.keptBy a fun signing request _ =>
    w.transact_keeps (signAndIssue_extends env w.keysets signing w.nextId request)

theorem World.run_extends (actions : List Action) :
    Extends w.db (run (World.step env backends) w actions).db :=
  run_keepsTo (fun w a => w.step_extends env backends a) w actions

end Runs

end Cdk
