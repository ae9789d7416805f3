import Cdk.Mint.Melt
import Mathlib.Logic.Relation

/-!
# What the transactions do

One statement for each transaction of the mint: when it commits, the tables it
leaves and the facts its checks have established. What happens to a melt quote
is stated through the state of every quote, which is all that later steps read.
-/

namespace Cdk

open Lib

/-- The state of a stored melt quote. -/
def Db.meltState (db : Db) (id : QuoteId) : Option MeltQuoteState :=
  (db.meltQuotes.find? id).map MeltQuote.state

namespace Db

variable {db db' : Db} {u : Unit}

/-! ## Signed rows -/

/-- What signing does to the rows of the signature table. -/
structure SignedRows (messages : List PublicKey) (quoteId : Option QuoteId)
    (t t' : Table SignatureRow.blindedMessage) : Prop where
  kept : ∀ r ∈ t.rows, ∃ r' ∈ t'.rows, r'.blindedMessage = r.blindedMessage ∧
    r'.quoteId = r.quoteId ∧ r'.operation = r.operation
  origin : ∀ r' ∈ t'.rows, r' ∈ t.rows ∨ r'.c.isSome ∧ r'.blindedMessage ∈ messages ∧
    (r'.quoteId = quoteId ∧ r'.operation = none ∨ ∃ r ∈ t.rows, r.c = none ∧
      r.blindedMessage = r'.blindedMessage ∧ r.quoteId = r'.quoteId ∧ r.operation = r'.operation)
  signed : ∀ r' ∈ t'.rows, r'.blindedMessage ∈ messages → r'.c.isSome

private theorem signedRows_one {quoteId : Option QuoteId} {entry : PublicKey × BlindSignature}
    (h : addBlindSignature quoteId entry db = .ok (u, db')) :
    SignedRows [entry.1] quoteId db.blindSignatures db'.blindSignatures := by
  rcases addBlindSignature_ok h with ⟨t, hnew, hrows, rfl⟩ | ⟨r₀, hr₀, hkey, hc, rfl⟩
  · have hmem : ∀ r', r' ∈ t.rows ↔ r' ∈ db.blindSignatures.rows ∨
        r' = ⟨entry.1, entry.2.amount, entry.2.keysetId, some entry.2.c, quoteId, none⟩ := by
      simp [hrows]
    constructor
    · intro r hr
      exact ⟨r, (hmem r).mpr (.inl hr), rfl, rfl, rfl⟩
    · intro r' hr'
      rcases (hmem r').mp hr' with hr' | rfl
      · exact .inl hr'
      · exact .inr ⟨rfl, by simp, .inl ⟨rfl, rfl⟩⟩
    · intro r' hr' hm
      rcases (hmem r').mp hr' with hr' | rfl
      · exact absurd (List.mem_singleton.mp hm) (hnew r' hr')
      · rfl
  · constructor
    · intro r hr
      refine ⟨signRow entry.1 entry.2 r, List.mem_map_of_mem hr, signRow_key _ _ _, ?_⟩
      unfold signRow
      split <;> exact ⟨rfl, rfl⟩
    · intro r' hr'
      obtain ⟨r, hr, rfl⟩ := List.mem_map.mp hr'
      by_cases hk : r.blindedMessage = entry.1
      · have heq : r = r₀ := Table.eq_of_key hr hr₀ (hk.trans hkey.symm)
        subst heq
        refine .inr ⟨by simp [signRow, hk], by simp [signRow, hk], .inr ⟨r, hr, hc, ?_⟩⟩
        simp [signRow, hk]
      · exact .inl (by simpa [signRow, hk] using hr)
    · intro r' hr' hm
      obtain ⟨r, hr, rfl⟩ := List.mem_map.mp hr'
      rw [signRow_key, List.mem_singleton] at hm
      simp [signRow, hm]

private theorem SignedRows.trans {first rest : List PublicKey} {quoteId : Option QuoteId}
    {t t₁ t₂ : Table SignatureRow.blindedMessage} (h : SignedRows first quoteId t t₁)
    (h' : SignedRows rest quoteId t₁ t₂) : SignedRows (first ++ rest) quoteId t t₂ := by
  constructor
  · intro r hr
    obtain ⟨r₁, hr₁, hk₁, hq₁, ho₁⟩ := h.kept r hr
    obtain ⟨r₂, hr₂, hk₂, hq₂, ho₂⟩ := h'.kept r₁ hr₁
    exact ⟨r₂, hr₂, hk₂.trans hk₁, hq₂.trans hq₁, ho₂.trans ho₁⟩
  · intro r₂ hr₂
    rcases h'.origin r₂ hr₂ with hr₁ | ⟨hs, hm, hq | ⟨r₁, hr₁, hc₁, hk, hq, ho⟩⟩
    · exact (h.origin r₂ hr₁).imp_right fun ⟨hs, hm, hq⟩ => ⟨hs, List.mem_append_left _ hm, hq⟩
    · exact .inr ⟨hs, List.mem_append_right _ hm, .inl hq⟩
    · rcases h.origin r₁ hr₁ with hr | ⟨hs₁, -⟩
      · exact .inr ⟨hs, List.mem_append_right _ hm, .inr ⟨r₁, hr, hc₁, hk, hq, ho⟩⟩
      · simp [hc₁] at hs₁
  · intro r₂ hr₂ hm
    rcases List.mem_append.mp hm with hm | hm
    · rcases h'.origin r₂ hr₂ with hr₁ | ⟨hs, -⟩
      · exact h.signed r₂ hr₁ hm
      · exact hs
    · exact h'.signed r₂ hr₂ hm

theorem addBlindSignatures_rows {messages : List PublicKey} {signatures : List BlindSignature}
    {quoteId : Option QuoteId}
    (h : addBlindSignatures messages signatures quoteId db = .ok (u, db')) :
    SignedRows messages quoteId db.blindSignatures db'.blindSignatures := by
  obtain ⟨hlen, hloop⟩ := addBlindSignatures_ok h
  clear h
  induction messages generalizing db signatures with
  | nil =>
      have hdb : (pure () : DbTx Unit) db = .ok (u, db') := hloop
      rw [Tx.pure_ok] at hdb
      rw [← hdb.2]
      exact ⟨fun r hr => ⟨r, hr, rfl, rfl, rfl⟩, fun r hr => .inl hr, fun _ _ hm => nomatch hm⟩
  | cons message messages ih =>
      obtain _ | ⟨sig, sigs⟩ := signatures
      · simp at hlen
      have hbind : (addBlindSignature quoteId (message, sig) >>= fun _ =>
          (messages.zip sigs).forM (addBlindSignature quoteId)) db = .ok (u, db') := hloop
      rw [Tx.bind_ok] at hbind
      obtain ⟨_, mid, hone, hrest⟩ := hbind
      exact (signedRows_one hone).trans (ih (by simpa using hlen) hrest)

/-! ## The states of melt quotes -/

theorem meltState_eq_some {id : QuoteId} {state : MeltQuoteState} :
    db.meltState id = some state ↔ ∃ q ∈ db.meltQuotes.rows, q.id = id ∧ q.state = state := by
  simp only [meltState, Option.map_eq_some_iff, Table.find?_eq_some, and_assoc]

theorem meltState_of_mem {q : MeltQuote} (hq : q ∈ db.meltQuotes.rows) :
    db.meltState q.id = some q.state :=
  meltState_eq_some.mpr ⟨q, hq, rfl, rfl⟩

theorem meltState_withMeltState {quoteId : QuoteId} {state : MeltQuoteState} {q : MeltQuote}
    (hq : q ∈ db.meltQuotes.rows) (hid : q.id = quoteId) :
    (withMeltState quoteId state db).meltState =
      Function.update db.meltState quoteId (some state) := by
  funext i
  by_cases hi : i = quoteId
  · subst hi
    rw [Function.update_self, meltState_eq_some]
    exact ⟨_, List.mem_map_of_mem hq, (setMeltState_id _ _ _).trans hid, by simp [setMeltState, hid]⟩
  · rw [Function.update_of_ne hi]
    ext s
    simp only [meltState_eq_some, withMeltState, Table.update_rows, List.mem_map]
    constructor
    · rintro ⟨_, ⟨q', hq', rfl⟩, hid', hs⟩
      rw [setMeltState_id] at hid'
      rw [setMeltState, if_neg (by rw [hid']; exact hi)] at hs
      exact ⟨q', hq', hid', hs⟩
    · rintro ⟨q', hq', hid', hs⟩
      refine ⟨_, ⟨q', hq', rfl⟩, ?_⟩
      rw [setMeltState, if_neg (by rw [hid']; exact hi)]
      exact ⟨hid', hs⟩

/-- Only the melt quotes decide the states. -/
theorem meltState_congr (h : db'.meltQuotes = db.meltQuotes) : db'.meltState = db.meltState := by
  funext i
  rw [meltState, meltState, h]

theorem updateMeltQuoteRequestLookupId_ok {quoteId : QuoteId} {lookup : PaymentIdentifier}
    (h : updateMeltQuoteRequestLookupId quoteId lookup db = .ok (u, db')) :
    db'.meltState = db.meltState ∧ db' = { db with meltQuotes := db'.meltQuotes } := by
  rw [updateMeltQuoteRequestLookupId, Tx.write_ok] at h
  split at h
  · rw [← h]
    exact ⟨rfl, rfl⟩
  · subst h
    refine ⟨?_, rfl⟩
    funext i
    ext s
    simp only [meltState_eq_some, Table.update_rows, List.mem_map]
    have hstate : ∀ q, (setLookupId quoteId lookup q).state = q.state := by
      intro q
      unfold setLookupId
      split <;> rfl
    constructor
    · rintro ⟨_, ⟨q, hq, rfl⟩, hid, hs⟩
      exact ⟨q, hq, (setLookupId_id _ _ _).symm.trans hid, (hstate q).symm.trans hs⟩
    · rintro ⟨q, hq, hid, hs⟩
      exact ⟨_, ⟨q, hq, rfl⟩, (setLookupId_id _ _ _).trans hid, (hstate q).trans hs⟩

end Db

/-! ## Mint quotes -/

/-- A payment has been recorded on a mint quote. -/
structure Credit (quote : MintQuote) (amount : Amount) (paymentId : String) (db db' : Db) :
    Prop where
  mem : quote ∈ db.mintQuotes.rows
  fresh : ∀ row ∈ db.payments.rows, row.paymentId ≠ paymentId
  payments : db'.payments.rows = db.payments.rows ++ [⟨quote.id, paymentId, amount⟩]
  quotes : ∃ paid : Amount, paid.toNat = quote.amountPaid.toNat + amount.toNat ∧
    db'.mintQuotes = db.mintQuotes.update (Db.setPaid quote.id paid) (Db.setPaid_id quote.id paid)
  frame : db' = { db with mintQuotes := db'.mintQuotes, payments := db'.payments }

/-- Some payment has been recorded on some mint quote. -/
def Credited (db db' : Db) : Prop := ∃ quote amount paymentId, Credit quote amount paymentId db db'

section Quotes

variable {env : Env} {keysets : Keysets} {db db' : Db} {u : Unit}

/-- Credits keep what does not depend on the mint quotes and their payments. -/
theorem credits_same {β : Type} (f : Db → β)
    (hf : ∀ db quotes payments, f { db with mintQuotes := quotes, payments := payments } = f db)
    (h : Relation.ReflTransGen Credited db db') : f db' = f db := by
  induction h with
  | refl => rfl
  | tail _ hstep ih =>
      obtain ⟨quote, amount, paymentId, hcredit⟩ := hstep
      rw [hcredit.frame, hf]
      exact ih

theorem credit_ok {quote : MintQuote} {amount paid : Amount} {paymentId : String}
    (hq : quote ∈ db.mintQuotes.rows)
    (h : Db.incrementMintQuoteAmountPaid quote.id amount paymentId db = .ok (paid, db')) :
    Credit quote amount paymentId db db' := by
  obtain ⟨t, hrows, hpaid, rfl⟩ := Db.incrementMintQuoteAmountPaid_ok h
  refine ⟨hq, ?_, hrows, ⟨paid, hpaid quote hq rfl, rfl⟩, rfl⟩
  intro row hrow heq
  exact (Table.fresh_of_append hrows).1 row hrow (by simp [heq])

theorem handlePaymentNotification_ok {response : WaitPaymentResponse}
    (h : handlePaymentNotification response db = .ok (u, db')) : db' = db ∨ Credited db db' := by
  simp only [handlePaymentNotification, Tx.bind_ok, Tx.ensure_ok, Tx.read_ok] at h
  obtain ⟨_, _, ⟨-, rfl⟩, found, _, ⟨hfound, rfl⟩, h⟩ := h
  cases found with
  | none =>
      rw [Tx.pure_ok] at h
      exact .inl h.2.symm
  | some quote =>
      have hq : quote ∈ db.mintQuotes.rows := List.mem_of_find?_eq_some hfound
      simp only [handleMintQuotePayment, Tx.bind_ok, Tx.read_ok, Tx.ite_ok, Tx.pure_ok, Tx.lift_ok,
        Tx.ensure_ok, Tx.mapErr_ok] at h
      obtain ⟨_, _, ⟨-, rfl⟩, ⟨-, -, rfl⟩ | ⟨-, amount, _, ⟨-, rfl⟩, _, _, ⟨-, rfl⟩, paid, _, hinc,
        -, rfl⟩⟩ := h
      · exact .inl rfl
      · exact .inr ⟨quote, amount, _, credit_ok hq hinc⟩

private theorem creditPayment_ok {checked checked' : CheckedQuote} {payment : WaitPaymentResponse}
    (hq : ∃ q ∈ db.mintQuotes.rows, q.id = checked.quote.id)
    (h : creditPayment checked payment db = .ok (checked', db')) :
    (∃ q ∈ db'.mintQuotes.rows, q.id = checked'.quote.id) ∧
      Relation.ReflTransGen Credited db db' := by
  simp only [creditPayment, Tx.ite_ok, Tx.pure_ok, Tx.bind_ok, Tx.lift_ok, Tx.mapErr_ok] at h
  obtain ⟨-, rfl, rfl⟩ | ⟨-, amount, _, ⟨-, rfl⟩, _, _, ⟨-, rfl⟩, paid, _, hinc, rfl, rfl⟩ := h
  · exact ⟨hq, .refl⟩
  · obtain ⟨q, hq, hid⟩ := hq
    rw [← hid] at hinc
    have hcredit := credit_ok hq hinc
    obtain ⟨paid', -, hquotes⟩ := hcredit.quotes
    refine ⟨⟨Db.setPaid q.id paid' q, ?_, ?_⟩, .single ⟨_, _, _, hcredit⟩⟩
    · rw [hquotes]
      exact List.mem_map_of_mem hq
    · rw [Db.setPaid_id]
      exact hid

private theorem foldlM_creditPayment_ok {payments : List WaitPaymentResponse}
    {checked checked' : CheckedQuote} (hq : ∃ q ∈ db.mintQuotes.rows, q.id = checked.quote.id)
    (h : payments.foldlM creditPayment checked db = .ok (checked', db')) :
    Relation.ReflTransGen Credited db db' := by
  induction payments generalizing db checked with
  | nil =>
      rw [List.foldlM_nil, Tx.pure_ok] at h
      rw [h.2]
  | cons payment rest ih =>
      rw [List.foldlM_cons, Tx.bind_ok] at h
      obtain ⟨next, mid, hone, hrest⟩ := h
      obtain ⟨hnext, hcredits⟩ := creditPayment_ok hq hone
      exact hcredits.trans (ih hnext hrest)

theorem checkMintQuotePaid_ok {answer : StatusAnswer} {quote : MintQuote}
    (h : checkMintQuotePaid answer quote db = .ok (u, db')) :
    Relation.ReflTransGen Credited db db' := by
  simp only [checkMintQuotePaid, creditPayments, Tx.ite_ok, Tx.pure_ok, Tx.bind_ok, Tx.lift_ok,
    Tx.read_ok, Outcome.ofOption_eq_ok] at h
  obtain ⟨-, -, rfl⟩ | ⟨-, _, _, ⟨-, rfl⟩, payments, _, ⟨-, rfl⟩, ⟨-, -, rfl⟩ | ⟨-, found, _,
    ⟨hfound, rfl⟩, stored, _, ⟨rfl, rfl⟩, seen, _, ⟨-, rfl⟩, ⟨-, -, rfl⟩ | ⟨-, _, _, hloop, -, rfl⟩⟩⟩
    := h
  · exact .refl
  · exact .refl
  · exact .refl
  · exact foldlM_creditPayment_ok ⟨stored, (Table.find?_eq_some.mp hfound).1, rfl⟩ hloop

/-- Signatures have been issued for a mint quote. -/
structure Issue (quote : MintQuote) (total : Nat) (db db' : Db) : Prop where
  mem : quote ∈ db.mintQuotes.rows
  quotes : ∃ issued : Amount, issued.toNat = quote.amountIssued.toNat + total ∧
    issued.toNat ≤ quote.amountPaid.toNat ∧
    db'.mintQuotes = db.mintQuotes.update (Db.setIssued quote.id issued)
      (Db.setIssued_id quote.id issued)
  signed : ∀ p : Option QuoteId → Bool, db'.blindSignatures.sum (Db.signedFor p) =
    db.blindSignatures.sum (Db.signedFor p) + if p (some quote.id) then total else 0
  kept : ∀ r ∈ db.blindSignatures.rows, ∃ r' ∈ db'.blindSignatures.rows,
    r'.blindedMessage = r.blindedMessage ∧ r'.quoteId = r.quoteId ∧ r'.operation = r.operation
  origin : ∀ r' ∈ db'.blindSignatures.rows, r' ∈ db.blindSignatures.rows ∨
    r'.c.isSome ∧ r'.quoteId = some quote.id ∧ ∀ o ∈ r'.operation, o.kind = .mint
  frame : db' = { db with
    mintQuotes := db'.mintQuotes
    blindSignatures := db'.blindSignatures
    issued := db'.issued }

/-- Reserving messages and signing them in one transaction adds signed rows only. -/
theorem issueSignatures_ok {operationId : Uuid} {request : MintRequest}
    {signatures : List BlindSignature}
    (hsign : signatures.map BlindSignature.amount = request.outputs.map BlindedMessage.amount)
    (h : issueSignatures env keysets operationId request signatures db = .ok (u, db')) :
    ∃ quote total, quote.id = request.quote ∧ Issue quote total db db' := by
  simp only [issueSignatures, Tx.bind_ok, Tx.read_ok, Tx.lift_ok, Tx.ensure_ok, Tx.mapErr_ok,
    Tx.pure_ok, Outcome.ofOption_eq_ok, Outcome.expect_eq_ok] at h
  obtain ⟨found, _, ⟨-, rfl⟩, _, _, ⟨-, rfl⟩, _, _, ⟨-, rfl⟩, outputs, _, hout, _, _, ⟨-, rfl⟩, _, _,
    ⟨-, rfl⟩, _, _, ⟨-, rfl⟩, _, reserved, hmsg, _, signed, hadd, total, _, ⟨htotal, rfl⟩, issued, _,
    hinc, -, rfl⟩ := h
  rw [(verifyOutputs_ok hout).1] at hmsg
  obtain ⟨b, hb, rfl⟩ := Db.addBlindedMessages_ok hmsg
  obtain ⟨t, rfl⟩ := Db.addBlindSignatures_frame hadd
  obtain ⟨quote, hquote, hid, hissued, hle, rfl⟩ := Db.incrementMintQuoteAmountIssued_ok hinc
  have hrows := Table.insertAll?_rows hb
  have hnew : ∀ r ∈ b.rows, r ∈ db.blindSignatures.rows ∨
      r.blindedMessage ∈ request.outputs.map BlindedMessage.blindedSecret ∧
        r.quoteId = some request.quote ∧ r.operation = some ⟨.mint, operationId⟩ := by
    intro r hr
    rw [hrows, List.mem_append] at hr
    rcases hr with hr | hr
    · exact .inl hr
    · obtain ⟨m, hm, rfl⟩ := List.mem_map.mp hr
      exact .inr ⟨List.mem_map_of_mem hm, rfl, rfl⟩
  have hfresh : ∀ r ∈ db.blindSignatures.rows,
      r.blindedMessage ∉ request.outputs.map BlindedMessage.blindedSecret := by
    have := (Table.fresh_of_append hrows).1
    simpa [Db.messageRows, Function.comp_def] using this
  have hsr := Db.addBlindSignatures_rows hadd
  refine ⟨quote, total.toNat, hid, hquote, ⟨issued, hissued, hle, by rw [hid]⟩, ?_, ?_, ?_, rfl⟩
  · intro p
    have hsum := Db.addBlindSignatures_sum (p := p) (b := p (some request.quote)) hadd rfl (by
      intro r hr hm hc
      rcases hnew r hr with hr | ⟨-, hq, -⟩
      · exact absurd hm (hfresh r hr)
      · rw [hq])
    have hzero : b.sum (Db.signedFor p) = db.blindSignatures.sum (Db.signedFor p) := by
      rw [Table.sum_of_rows _ hrows]
      simp [Db.messageRows, Db.signedFor, Function.comp_def]
    rw [hid, Amount.trySum_eq_total htotal, ← hsign]
    exact hsum.trans (by rw [hzero])
  · intro r hr
    apply hsr.kept r
    change r ∈ b.rows
    rw [hrows]
    exact List.mem_append_left _ hr
  · intro r' hr'
    rw [hid]
    rcases hsr.origin r' hr' with hb' | ⟨hs, hm, ⟨hq, ho⟩ | ⟨r, hr, hc, hk, hq, ho⟩⟩
    · rcases hnew r' hb' with hr | ⟨hm, hq, ho⟩
      · exact .inl hr
      · exact .inr ⟨hsr.signed r' hr' hm, hq, by simp [ho]⟩
    · exact .inr ⟨hs, hq, by simp [ho]⟩
    · rcases hnew r hr with hold | ⟨-, hq', ho'⟩
      · exact absurd (hk ▸ hm) (hfresh r hold)
      · exact .inr ⟨hs, hq ▸ hq', by rw [← ho, ho']; simp⟩

end Quotes

/-! ## Swaps -/

/-- The second transaction of a swap has stored its signatures and spent its inputs. -/
structure SwapStored (setup : SwapSetup) (signatures : List BlindSignature) (db db' : Db) :
    Prop where
  signed : ∃ u mid, Db.addBlindSignatures setup.blindedSecrets signatures none db = .ok (u, mid) ∧
    db'.blindSignatures = mid.blindSignatures
  found : (db.proofs.rows.filter fun r => r.y ∈ setup.ys).length = setup.ys.length
  allowed : ∀ r ∈ db.proofs.rows, r.y ∈ setup.ys → r.state.transitionAllowed .spent = true
  proofs : db'.proofs =
    db.proofs.update (Db.setState setup.ys .spent) (Db.setState_y setup.ys .spent)
  frame : db' = { db with proofs := db'.proofs, blindSignatures := db'.blindSignatures }

/-- The rows of a swap have been removed. -/
structure SetupRemoved (saga : Saga) (db db' : Db) : Prop where
  found : (db.proofs.rows.filter (Db.removable saga.inputYs)).length = saga.inputYs.length
  proofs : db'.proofs = db.proofs.delete (Db.removable saga.inputYs)
  signatures : db'.blindSignatures = db.blindSignatures.delete (Db.unsigned saga.blindedSecrets)
  frame : db' = { db with proofs := db'.proofs, blindSignatures := db'.blindSignatures }

section Swaps

variable {db db' : Db} {u : Unit}

theorem Fault.guard_ok {α : Type} {fault : Fault} {step : SwapStep} {x : MintTx α} {a : α}
    (h : fault.guard step x db = .ok (a, db')) : x db = .ok (a, db') := by
  cases hf : fault.at? step with
  | none => rwa [Fault.guard_of_none hf] at h
  | some e =>
      rw [Fault.guard_of_some hf, Tx.fail_ok] at h
      exact h.elim

theorem storeSwap_ok {fault : Fault} {setup : SwapSetup} {signatures : List BlindSignature}
    (h : storeSwap fault setup signatures db = .ok (u, db')) :
    SwapStored setup signatures db db' := by
  simp only [storeSwap, Tx.bind_ok, Tx.pure_ok] at h
  obtain ⟨_, mid, hadd, original, _, hupd, -, rfl⟩ := h
  have hadd := Tx.mapErr_ok.mp (Fault.guard_ok hadd)
  have hupd := Tx.mapErr_ok.mp (Fault.guard_ok hupd)
  obtain ⟨t, rfl⟩ := Db.addBlindSignatures_frame hadd
  obtain ⟨hfound, hallowed, rfl⟩ := Db.updateProofsStates_ok hupd
  exact ⟨⟨_, _, hadd, rfl⟩, hfound, hallowed, rfl, rfl⟩

theorem removeSwapSetup_ok {saga : Saga}
    (h : removeSwapSetup saga.blindedSecrets saga.inputYs db = .ok (u, db')) :
    SetupRemoved saga db db' := by
  simp only [removeSwapSetup, Tx.bind_ok, Tx.mapErr_ok, Db.deleteBlindedMessages_ok] at h
  obtain ⟨_, _, rfl, hrem⟩ := h
  obtain ⟨hfound, rfl⟩ := Db.removeProofs_ok hrem
  exact ⟨hfound, rfl, rfl, rfl⟩

end Swaps

/-! ## Melts -/

/-- The inputs of a melt are pending, its quote is pending and its request is recorded. -/
structure MeltReserved (env : Env) (request : MeltRequest) (operationId : Uuid)
    (quote : MeltQuote) (rows : List ProofRow) (db db' : Db) : Prop where
  reserved : Db.Reserved env request.inputs (some request.quote) ⟨.melt, operationId⟩ rows
  nonempty : request.inputs ≠ []
  quoteId : quote.id = request.quote
  stored : ∃ q ∈ db.meltQuotes.rows, quote = { q with state := .pending }
  meltable : db.meltState request.quote = some .unpaid ∨ db.meltState request.quote = some .failed
  pending : db'.meltState = Function.update db.meltState request.quote (some .pending)
  covered : quote.amount.toNat ≤ Amount.total (request.inputs.map Proof.amount)
  proofs : db'.proofs.rows = db.proofs.rows ++ rows
  signatures : db'.blindSignatures.rows = db.blindSignatures.rows ++
    Db.messageRows (some request.quote) ⟨.melt, operationId⟩ (request.outputs.getD [])
  requests : ∃ amount fee, amount.toNat = Amount.total (request.inputs.map Proof.amount) ∧
    db'.meltRequests.rows = db.meltRequests.rows ++ [⟨request.quote, amount, fee⟩]
  frame : db' = { db with
    proofs := db'.proofs
    blindSignatures := db'.blindSignatures
    meltQuotes := db'.meltQuotes
    meltRequests := db'.meltRequests }

/-- The amount of the change that a melt has promised. -/
def promised (change : Option PendingChange) : Nat :=
  (change.map fun c => Amount.total (c.messages.map BlindedMessage.amount)).getD 0

/-- The inputs of a melt are spent and its quote is paid. -/
structure MeltSettled (env : Env) (quoteId : QuoteId) (spent : Amount)
    (change : Option PendingChange) (ys : List PublicKey) (db db' : Db) : Prop where
  keys : List.Forall₂ (fun r y => env.hashToCurve (utf8 r.secret) = some y)
    (db.proofs.rows.filter fun r => r.quoteId = some quoteId) ys
  nonempty : ys ≠ []
  found : (db.proofs.rows.filter fun r => r.y ∈ ys).length = ys.length
  allowed : ∀ r ∈ db.proofs.rows, r.y ∈ ys → r.state.transitionAllowed .spent = true
  payable : ∃ state, db.meltState quoteId = some state ∧ state.transitionAllowed .paid = true
  paid : db'.meltState = Function.update db.meltState quoteId (some .paid)
  request : ∃ row ∈ db.meltRequests.rows, row.quoteId = quoteId ∧
    (change = none ∨ promised change + spent.toNat ≤ row.inputsAmount.toNat)
  changeQuote : ∀ c ∈ change, c.quoteId = quoteId
  proofs : db'.proofs = db.proofs.update (Db.setState ys .spent) (Db.setState_y ys .spent)
  signatures : db'.blindSignatures =
    db.blindSignatures.delete fun r => change.isNone && Db.reservedFor quoteId r
  requests : db'.meltRequests =
    db.meltRequests.delete fun row => change.isNone && decide (row.quoteId = quoteId)
  frame : db' = { db with
    proofs := db'.proofs
    blindSignatures := db'.blindSignatures
    meltQuotes := db'.meltQuotes
    meltRequests := db'.meltRequests }

/-- The change of a melt is signed and its request is gone. -/
structure ChangeStored (change : PendingChange) (signatures : List BlindSignature) (db db' : Db) :
    Prop where
  signed : ∃ u mid, Db.addBlindSignatures
      ((change.outputs.take signatures.length).map BlindedMessage.blindedSecret) signatures
      (some change.quoteId) db = .ok (u, mid) ∧
    db'.blindSignatures = mid.blindSignatures.delete (Db.reservedFor change.quoteId)
  requests : db'.meltRequests = db.meltRequests.delete fun row => row.quoteId = change.quoteId
  frame : db' = { db with
    blindSignatures := db'.blindSignatures
    meltRequests := db'.meltRequests }

/-- Every stored proof is pending or spent. -/
def Db.Settled (db : Db) : Prop :=
  ∀ r ∈ db.proofs.rows, r.state = .pending ∨ r.state = .spent

/-- All proofs with the given keys are stored and unspent, so that they can be removed. -/
def Db.Removes (db : Db) (ys : List PublicKey) : Prop :=
  (db.proofs.rows.filter (Db.removable ys)).length = ys.length

namespace ProofWriter

/-- No proof of the writer has an unspent state to go back to. -/
def Additions (writer : ProofWriter) : Prop :=
  ∀ e ∈ writer, ∀ state, e.2 = some state → state = .spent

/-- The original states of a writer that has only seen stored proofs. -/
def Good (writer : ProofWriter) : Prop :=
  ∀ e ∈ writer, ∀ state, e.2 = some state → state = .pending ∨ state = .spent

theorem mem_record {writer : ProofWriter} {ys : List PublicKey} {original : List (Option State)}
    {e : PublicKey × Option State} (h : e ∈ writer.record ys original) :
    e ∈ writer ∨ e.2 ∈ original := by
  have key : ∀ (entries : List (PublicKey × Option State)) (w : ProofWriter),
      (∀ e ∈ entries, e.2 ∈ original) → (∀ e ∈ w, e ∈ writer ∨ e.2 ∈ original) →
      ∀ e ∈ entries.foldl (fun w e => if e.1 ∈ w.map Prod.fst then w else w ++ [e]) w,
        e ∈ writer ∨ e.2 ∈ original := by
    intro entries
    induction entries with
    | nil => exact fun w _ hw => hw
    | cons e₀ rest ih =>
        intro w hall hw
        rw [List.foldl_cons]
        apply ih _ (fun e he => hall e (by simp [he]))
        intro e he
        split at he
        · exact hw e he
        · rcases List.mem_append.mp he with he | he
          · exact hw e he
          · rw [List.mem_singleton.mp he]
            exact .inr (hall e₀ (by simp))
  exact key _ writer (fun e he => (List.of_mem_zip he).2) (fun e he => .inl he) e h

/-- Recording proofs that are known changes nothing. -/
theorem record_known {writer : ProofWriter} {ys : List PublicKey} {original : List (Option State)}
    (h : ∀ y ∈ ys, y ∈ writer.map Prod.fst) : writer.record ys original = writer := by
  have key : ∀ entries : List (PublicKey × Option State),
      (∀ e ∈ entries, e.1 ∈ writer.map Prod.fst) →
      entries.foldl (fun w e => if e.1 ∈ w.map Prod.fst then w else w ++ [e]) writer = writer := by
    intro entries hall
    induction entries with
    | nil => rfl
    | cons e rest ih =>
        rw [List.foldl_cons, if_pos (hall e (by simp))]
        exact ih fun e he => hall e (by simp [he])
  exact key _ fun e he => h e.1 (List.of_mem_zip he).1

end ProofWriter

section Melts

variable {env : Env} {keysets : Keysets} {backends : Backends} {db db' : Db} {u : Unit}

theorem writerAddProofs_ok {proofs : List Proof} {quoteId : QuoteId} {operation : Operation}
    {writer : ProofWriter}
    (h : ProofWriter.addProofs env proofs quoteId operation db = .ok (writer, db')) :
    ∃ rows t, Db.Reserved env proofs (some quoteId) operation rows ∧
      writer = rows.map (fun r => (r.y, none)) ∧ t.rows = db.proofs.rows ++ rows ∧
      db' = { db with proofs := t } := by
  simp only [ProofWriter.addProofs, ProofWriter.updateProofsStates, Tx.bind_ok, guarded_ok,
    Tx.mapErr_ok, Tx.lift_ok, Tx.ensure_ok, Tx.pure_ok] at h
  obtain ⟨_, mid, hadd, ys, _, ⟨hys, rfl⟩, original, _, hupd, _, _, ⟨-, rfl⟩, _, _, ⟨-, rfl⟩, rfl,
    rfl⟩ := h
  obtain ⟨rows, t, hres, hkeys, hrows, rfl⟩ := Db.reserve_ok hadd hys hupd
  refine ⟨rows, t, hres, ?_, hrows, rfl⟩
  rw [ProofWriter.record_known (by simp), ← hkeys, List.map_map, Function.comp_def]

theorem verifyChangeOutputs_ok {unit : Option CurrencyUnit} {request : MeltRequest}
    (h : verifyChangeOutputs keysets unit request db = .ok (u, db')) : db' = db := by
  simp only [verifyChangeOutputs, Tx.ite_ok, Tx.pure_ok, Tx.bind_ok, Tx.ensure_ok] at h
  obtain ⟨-, -, rfl⟩ | ⟨-, _, _, hout, -, rfl⟩ := h
  · rfl
  · exact (verifyOutputs_ok hout).1

theorem verifyMeltQuote_ok {input : Verification} {request : MeltRequest} {quote : MeltQuote}
    (h : verifyMeltQuote env keysets input request db = .ok (quote, db')) :
    quote.id = request.quote ∧ (∃ q ∈ db.meltQuotes.rows, quote = { q with state := .pending }) ∧
      quote.amount.toNat ≤ input.amount.toNat ∧
      (db.meltState request.quote = some .unpaid ∨ db.meltState request.quote = some .failed) ∧
      db' = Db.withMeltState request.quote .pending db ∧
      db'.meltState = Function.update db.meltState request.quote (some .pending) := by
  simp only [verifyMeltQuote, Tx.bind_ok, Tx.mapErr_ok, Tx.ensure_ok, Tx.lift_ok, Tx.pure_ok,
    Amount.add, Outcome.expect_eq_ok, Amount.checkedAdd_eq_some, decide_eq_true_eq,
    Amount.le_def] at h
  obtain ⟨updated, _, hupd, _, _, ⟨-, rfl⟩, _, _, ⟨hstate, rfl⟩, fee, _, ⟨-, rfl⟩, reserved, _,
    ⟨hreserved, rfl⟩, required, _, ⟨hrequired, rfl⟩, _, _, ⟨hle, rfl⟩, _, _, ⟨-, rfl⟩, _, _, hout, rfl,
    rfl⟩ := h
  obtain ⟨q, hq, hid, hallowed, rfl, hmid⟩ := Db.updateMeltQuoteState_ok hupd
  rw [verifyChangeOutputs_ok hout, hmid, if_neg (by decide)]
  refine ⟨hid, ⟨q, hq, rfl⟩, by dsimp only at hreserved ⊢; omega, ?_, rfl,
    Db.meltState_withMeltState hq hid⟩
  have hold : db.meltState request.quote = some q.state := hid ▸ Db.meltState_of_mem hq
  rw [hold]
  revert hstate
  dsimp only
  cases q.state <;> simp [meltable]

theorem recordMeltRequest_ok {operationId : Uuid} {request : MeltRequest}
    (h : recordMeltRequest keysets operationId request db = .ok (u, db')) :
    ∃ requests messages amount fee,
      amount.toNat = Amount.total (request.inputs.map Proof.amount) ∧
      requests.rows = db.meltRequests.rows ++ [⟨request.quote, amount, fee⟩] ∧
      messages.rows = db.blindSignatures.rows ++
        Db.messageRows (some request.quote) ⟨.melt, operationId⟩ (request.outputs.getD []) ∧
      db' = { db with meltRequests := requests, blindSignatures := messages } := by
  simp only [recordMeltRequest, Tx.bind_ok, Tx.lift_ok, Tx.mapErr_ok,
    Outcome.ofOption_eq_ok] at h
  obtain ⟨fee, _, ⟨-, rfl⟩, amount, _, ⟨hsum, rfl⟩, _, mid, hreq, hmsg⟩ := h
  obtain ⟨requests, -, hrows, rfl⟩ := Db.addMeltRequest_ok hreq
  obtain ⟨messages, hins, rfl⟩ := Db.addBlindedMessages_ok hmsg
  exact ⟨requests, messages, amount, fee, Amount.trySum_eq_total hsum, hrows,
    Table.insertAll?_rows hins, rfl⟩

/-- A mint quote that is paid internally took payments, and is credited. -/
theorem payInternally_ok {quote : MeltQuote} {request : MeltRequest} {mintQuote : MintQuote}
    {spent : Option Amount} (hmem : mintQuote ∈ db.mintQuotes.rows)
    (h : payInternally quote request mintQuote db = .ok (spent, db')) :
    spent = some quote.amount ∧ mintQuote.closed = false ∧
      Credit mintQuote quote.amount quote.id.toText db db' := by
  simp only [payInternally, Tx.bind_ok, Tx.ensure_ok, Tx.lift_ok, Tx.mapErr_ok,
    Tx.pure_ok] at h
  obtain ⟨_, _, ⟨hopen, rfl⟩, _, _, ⟨-, rfl⟩, _, _, ⟨-, rfl⟩, paid, _, hinc, rfl, rfl⟩ := h
  exact ⟨rfl, by simpa using hopen, credit_ok hmem hinc⟩

theorem mem_of_internalQuote {quote : MeltQuote} {mintQuote : MintQuote}
    (h : internalQuote quote db = some mintQuote) :
    mintQuote ∈ db.mintQuotes.rows ∧ mintQuote.unit = quote.unit := by
  obtain ⟨hfind, hunit⟩ := Option.filter_eq_some_iff.mp h
  exact ⟨List.mem_of_find?_eq_some hfind, by simpa using hunit⟩

theorem handleInternalMeltMint_ok {quote : MeltQuote} {request : MeltRequest}
    {spent : Option Amount}
    (h : handleInternalMeltMint quote request db = .ok (spent, db')) :
    (spent = none ∧ internalQuote quote db = none ∧ db' = db) ∨
      (spent = some quote.amount ∧ ∃ mintQuote, internalQuote quote db = some mintQuote ∧
        mintQuote.closed = false ∧ Credit mintQuote quote.amount quote.id.toText db db') := by
  simp only [handleInternalMeltMint, Tx.bind_ok, Tx.read_ok] at h
  obtain ⟨found, _, ⟨hfound, rfl⟩, h⟩ := h
  cases found with
  | none =>
      rw [Tx.pure_ok] at h
      exact .inl ⟨h.1.symm, hfound, h.2.symm⟩
  | some mintQuote =>
      obtain ⟨hspent, hopen, hcredit⟩ := payInternally_ok (mem_of_internalQuote hfound).1 h
      exact .inr ⟨hspent, mintQuote, hfound, hopen, hcredit⟩

/-! ### Settling -/

theorem burnInputs_ok {writer writer' : ProofWriter} {quoteId : QuoteId}
    (h : burnInputs env writer quoteId db = .ok (writer', db')) :
    ∃ ys original, List.Forall₂ (fun r y => env.hashToCurve (utf8 r.secret) = some y)
        (db.proofs.rows.filter fun r => r.quoteId = some quoteId) ys ∧ ys ≠ [] ∧
      Db.updateProofsStates ys .spent db = .ok (original, db') ∧
      writer' = writer.record ys original := by
  simp only [burnInputs, ProofWriter.updateProofsStates, Tx.bind_ok, guarded_ok, Tx.mapErr_ok,
    Tx.lift_ok, Tx.ensure_ok, Tx.pure_ok, Outcome.expect_eq_ok] at h
  obtain ⟨ys, _, hys, _, _, ⟨hne, rfl⟩, original, _, hupd, _, _, ⟨-, rfl⟩, _, _, ⟨-, rfl⟩, rfl,
    rfl⟩ := h
  obtain ⟨rfl, hall⟩ := Db.getProofYsByQuoteId_ok hys
  refine ⟨ys, original, hall, ?_, hupd, rfl⟩
  rintro rfl
  simp at hne

private theorem total_zip_le (amounts : List Amount) (outputs : List BlindedMessage) :
    Amount.total ((amounts.zip outputs).map fun e => e.1) ≤ Amount.total amounts := by
  induction amounts generalizing outputs with
  | nil => simp
  | cons a rest ih =>
      cases outputs with
      | nil => simp
      | cons o outputs =>
          have := ih outputs
          simp only [List.zip_cons_cons, List.map_cons, Amount.total_cons]
          omega

/-- The change never exceeds what the inputs leave. -/
theorem changeMessages_total {info : Db.MeltRequestInfo} {spent : Amount}
    {messages : List BlindedMessage} (h : changeMessages keysets info spent = .ok messages) :
    Amount.total (messages.map BlindedMessage.amount) + spent.toNat ≤ info.inputsAmount.toNat := by
  simp only [changeMessages, changeAmounts, Amount.sub, Outcome.bind_eq_ok, Outcome.expect_eq_ok,
    Amount.checkedSub_eq_some, Outcome.ok.injEq] at h
  obtain ⟨amounts, ⟨rest, hrest, target, htarget, parts, hparts, rfl⟩, rfl⟩ := h
  have hsplit := Amount.total_split_le hparts
  have hsort : ∀ l : List Amount, Amount.total (if info.changeOutputs.length < l.length then
      l.mergeSort fun a b => b ≤ a else l) = Amount.total l := by
    intro l
    split
    · exact List.Perm.sum_eq ((List.mergeSort_perm l _).map Amount.toNat)
    · rfl
  have hzip := total_zip_le (if info.changeOutputs.length < parts.length then
      parts.mergeSort fun a b => b ≤ a else parts) info.changeOutputs
  rw [hsort] at hzip
  simp only [List.map_map, Function.comp_def]
  omega

theorem payQuote_ok {quoteId : QuoteId} {spent : Amount} {change : Option PendingChange}
    (h : payQuote keysets quoteId spent db = .ok (change, db')) :
    (∃ q ∈ db.meltQuotes.rows, q.id = quoteId ∧ q.state.transitionAllowed .paid = true) ∧
      (∃ row ∈ db.meltRequests.rows, row.quoteId = quoteId ∧
        (change = none ∨ promised change + spent.toNat ≤ row.inputsAmount.toNat)) ∧
      (∀ c ∈ change, c.quoteId = quoteId) ∧
      db' = (if change = none then Db.withoutMeltRequest quoteId else id)
        (Db.withMeltState quoteId .paid db) := by
  simp only [payQuote, Tx.bind_ok, Tx.mapErr_ok, Db.getMeltRequestAndBlindedMessages, Tx.read_ok,
    Tx.lift_ok, Outcome.ofOption_eq_ok, Tx.ite_ok, Db.anySigned, Tx.ensure_ok, Tx.pure_ok,
    Db.deleteMeltRequest, Tx.write_ok] at h
  obtain ⟨_, mid, hupd, found, _, ⟨hfound, rfl⟩, info, _, ⟨rfl, rfl⟩, h⟩ := h
  obtain ⟨q, hq, hid, hallowed, -, hmid⟩ := Db.updateMeltQuoteState_ok hupd
  rw [if_neg (by decide)] at hmid
  obtain ⟨row, hrow, rfl⟩ := Option.map_eq_some_iff.mp hfound
  obtain ⟨hmem, hrid⟩ := Table.find?_eq_some.mp hrow
  rw [hmid] at hmem
  refine ⟨⟨q, hq, hid, hallowed⟩, ?_⟩
  obtain ⟨-, _, _, ⟨-, rfl⟩, _, _, ⟨-, rfl⟩, messages, _, ⟨hmsg, rfl⟩, rfl, rfl⟩ |
    ⟨-, _, _, rfl, rfl, rfl⟩ := h
  · refine ⟨⟨row, hmem, hrid, .inr (changeMessages_total hmsg)⟩, by simp, ?_⟩
    rw [hmid]
    rfl
  · refine ⟨⟨row, hmem, hrid, .inl rfl⟩, by simp, ?_⟩
    rw [hmid]
    rfl

theorem processMeltRequest_ok {writer writer' : ProofWriter} {quoteId : QuoteId} {spent : Amount}
    {change : Option PendingChange}
    (h : processMeltRequest env keysets writer quoteId spent db = .ok ((writer', change), db')) :
    ∃ ys, MeltSettled env quoteId spent change ys db db' := by
  simp only [processMeltRequest, Tx.bind_ok, guarded_ok, Tx.pure_ok, Prod.mk.injEq] at h
  obtain ⟨_, mid, hburn, change, _, hpay, ⟨rfl, rfl⟩, rfl⟩ := h
  obtain ⟨ys, original, hkeys, hne, hupd, -⟩ := burnInputs_ok hburn
  refine ⟨ys, ?_⟩
  obtain ⟨hfound, hallowed, rfl⟩ := Db.updateProofsStates_ok hupd
  obtain ⟨⟨q, hq, hid, hpayable⟩, hrequest, hchange, rfl⟩ := payQuote_ok hpay
  have hstate : (Db.withMeltState quoteId .paid db).meltState =
      Function.update db.meltState quoteId (some .paid) := Db.meltState_withMeltState hq hid
  refine ⟨hkeys, hne, hfound, hallowed, ⟨q.state, hid ▸ Db.meltState_of_mem hq, hpayable⟩, ?_,
    hrequest, hchange, ?_, ?_, ?_, ?_⟩
  · rw [← hstate]
    split <;> exact Db.meltState_congr rfl
  · split <;> rfl
  · cases hc : change with
    | none => rfl
    | some c => exact (Table.delete_eq_self fun _ _ => rfl).symm
  · cases hc : change with
    | none => rfl
    | some c => exact (Table.delete_eq_self fun _ _ => rfl).symm
  · split <;> rfl

theorem storeChange_ok {change : PendingChange} {signatures : List BlindSignature}
    (h : storeChange change signatures db = .ok (u, db')) :
    ChangeStored change signatures db db' := by
  simp only [storeChange, Tx.bind_ok, Tx.mapErr_ok, Db.deleteMeltRequest, Tx.write_ok] at h
  obtain ⟨_, mid, hadd, rfl⟩ := h
  obtain ⟨t, rfl⟩ := Db.addBlindSignatures_frame hadd
  exact ⟨⟨_, _, hadd, rfl⟩, rfl, rfl⟩

theorem settleExternal_ok {writer writer' : ProofWriter} {quote : MeltQuote}
    {response : MakePaymentResponse} {change : Option PendingChange}
    (h : settleExternal env keysets writer quote response db = .ok ((writer', change), db')) :
    ∃ ys, MeltSettled env quote.id (amountSpent quote response) change ys db db' := by
  simp only [settleExternal, Tx.bind_ok, Tx.ite_ok, guarded_ok, Tx.mapErr_ok] at h
  obtain ⟨-, _, named, hlookup, hprocess⟩ | ⟨-, hprocess⟩ := h
  · -- renaming the payment leaves every state and every other table alone
    obtain ⟨hstate, hframe⟩ := Db.updateMeltQuoteRequestLookupId_ok hlookup
    obtain ⟨ys, hs⟩ := processMeltRequest_ok hprocess
    obtain ⟨m, rfl⟩ : ∃ m, named = { db with meltQuotes := m } := ⟨_, hframe⟩
    exact ⟨ys, { hs with
      payable := hstate ▸ hs.payable
      paid := hstate ▸ hs.paid
      frame := hs.frame }⟩
  · exact processMeltRequest_ok hprocess

/-! ### Starting -/

/-- The first transaction of a melt up to the question who settles it. -/
theorem reserveMelt_ok {now : Nat} {operationId : Uuid} {request : MeltRequest}
    {writer : ProofWriter} {quote : MeltQuote}
    (h : reserveMelt env keysets now operationId request db = .ok ((writer, quote), db')) :
    ∃ rows, writer = rows.map (fun r => (r.y, none)) ∧
      MeltReserved env request operationId quote rows db db' := by
  simp only [reserveMelt, Tx.bind_ok, guarded_ok, Tx.lift_ok, Tx.pure_ok, Prod.mk.injEq] at h
  obtain ⟨input, _, ⟨hinput, rfl⟩, _, added, hadd, _, checked, hquote, _, _, hrecord, ⟨rfl, rfl⟩,
    rfl⟩ := h
  obtain ⟨rows, t, hres, hwriter, hrows, rfl⟩ := writerAddProofs_ok hadd
  obtain ⟨hid, hstored, hcovered, hmeltable, rfl, hpending⟩ := verifyMeltQuote_ok hquote
  obtain ⟨requests, messages, amount, fee, hamount, hreq, hmsg, rfl⟩ := recordMeltRequest_ok hrecord
  obtain ⟨htotal, -, ⟨unit, -, hunit⟩, -⟩ := verifyInputs_eq_ok hinput
  refine ⟨rows, hwriter, ?_⟩
  exact
    { reserved := hres
      nonempty := verifyInputsKeyset_nonempty hunit
      quoteId := hid
      stored := hstored
      meltable := hmeltable
      pending := hpending
      covered := htotal ▸ hcovered
      proofs := hrows
      signatures := hmsg
      requests := ⟨amount, fee, hamount, hreq⟩
      frame := rfl }

theorem startMelt_ok {now : Nat} {operationId : Uuid} {request : MeltRequest}
    {writer : ProofWriter} {start : MeltStart}
    (h : startMelt env keysets backends now operationId request db = .ok ((writer, start), db')) :
    ∃ rows quote, (writer = rows.map (fun r => (r.y, none)) ∧ start = .external quote ∧
        internalQuote quote db' = none ∧
        MeltReserved env request operationId quote rows db db') ∨
      ∃ mintQuote reserved credited change ys,
        start = .settled change ∧
        MeltReserved env request operationId quote rows db reserved ∧
        (internalQuote quote reserved = some mintQuote ∧ mintQuote.closed = false) ∧
        Credit mintQuote quote.amount request.quote.toText reserved credited ∧
        MeltSettled env request.quote quote.amount change ys credited db' := by
  simp only [startMelt, Tx.bind_ok, guarded_ok] at h
  obtain ⟨⟨_, quote⟩, reserved, hreserve, internal, handled, hinternal, h⟩ := h
  obtain ⟨rows, rfl, hres⟩ := reserveMelt_ok hreserve
  refine ⟨rows, quote, ?_⟩
  rcases handleInternalMeltMint_ok hinternal with ⟨rfl, hnone, rfl⟩ |
    ⟨rfl, mintQuote, hfound, hopen, hcredit⟩
  · simp only [settleOrPay, Tx.bind_ok, guarded_ok, Tx.lift_ok, Tx.pure_ok, Prod.mk.injEq] at h
    obtain ⟨_, _, ⟨-, rfl⟩, ⟨rfl, rfl⟩, rfl⟩ := h
    exact .inl ⟨rfl, rfl, hnone, hres⟩
  · simp only [settleOrPay, Tx.bind_ok, Tx.pure_ok, Prod.mk.injEq] at h
    obtain ⟨⟨_, change⟩, _, hprocess, ⟨rfl, rfl⟩, rfl⟩ := h
    obtain ⟨ys, hsettled⟩ := processMeltRequest_ok hprocess
    rw [hres.quoteId] at hcredit hsettled
    exact .inr ⟨mintQuote, reserved, handled, change, ys, rfl, hres, ⟨hfound, hopen⟩, hcredit,
      hsettled⟩

/-! ### Writers -/

theorem ProofWriter.Good.record {writer : ProofWriter} {ys : List PublicKey}
    {original : List (Option State)} {mid : Db} (hgood : writer.Good) (hdb : db.Settled)
    (hupd : Db.updateProofsStates ys .spent db = .ok (original, mid)) :
    (writer.record ys original).Good := by
  intro e he state hs
  rcases ProofWriter.mem_record he with he | he
  · exact hgood e he state hs
  · obtain ⟨r, hr, -, rfl⟩ := Db.updateProofsStates_original hupd (hs ▸ he)
    exact hdb r hr

theorem processMeltRequest_good {writer : ProofWriter} {quoteId : QuoteId} {spent : Amount}
    (hgood : writer.Good) (hdb : db.Settled) :
    (∀ r, processMeltRequest env keysets writer quoteId spent db = .ok r → r.1.1.Good) ∧
      ∀ failure, processMeltRequest env keysets writer quoteId spent db = .err failure →
        failure.writer.Good := by
  constructor
  · rintro ⟨⟨writer', change⟩, db'⟩ h
    simp only [processMeltRequest, Tx.bind_ok, guarded_ok, Tx.pure_ok, Prod.mk.injEq] at h
    obtain ⟨_, mid, hburn, _, _, -, ⟨rfl, -⟩, -⟩ := h
    obtain ⟨ys, original, -, -, hupd, rfl⟩ := burnInputs_ok hburn
    exact hgood.record hdb hupd
  · intro failure h
    rw [processMeltRequest, Tx.bind_err] at h
    rcases h with h | ⟨writer', mid, hburn, h⟩
    · simp only [burnInputs, Tx.bind_err] at h
      rcases h with h | ⟨_, _, -, h | ⟨_, _, -, h⟩⟩ <;> rw [guarded_err h] <;> exact hgood
    · obtain ⟨ys, original, -, -, hupd, rfl⟩ := burnInputs_ok hburn
      rw [Tx.bind_err] at h
      rcases h with h | ⟨_, _, -, h⟩
      · rw [guarded_err h]
        exact hgood.record hdb hupd
      · cases h

theorem settleExternal_good {writer : ProofWriter} {quote : MeltQuote}
    {response : MakePaymentResponse} (hgood : writer.Good) (hdb : db.Settled) :
    (∀ r, settleExternal env keysets writer quote response db = .ok r → r.1.1.Good) ∧
      ∀ failure, settleExternal env keysets writer quote response db = .err failure →
        failure.writer.Good := by
  unfold settleExternal
  split
  · constructor
    · rintro ⟨⟨writer', change⟩, db'⟩ h
      rw [Tx.bind_ok] at h
      obtain ⟨_, named, hlookup, h⟩ := h
      rw [guarded_ok, Tx.mapErr_ok] at hlookup
      have hframe := (Db.updateMeltQuoteRequestLookupId_ok hlookup).2
      have hnamed : named.Settled := by
        rw [hframe]
        exact hdb
      exact (processMeltRequest_good hgood hnamed).1 _ h
    · intro failure h
      rw [Tx.bind_err] at h
      rcases h with h | ⟨_, named, hlookup, h⟩
      · rw [guarded_err h]
        exact hgood
      · rw [guarded_ok, Tx.mapErr_ok] at hlookup
        have hframe := (Db.updateMeltQuoteRequestLookupId_ok hlookup).2
        have hnamed : named.Settled := by
          rw [hframe]
          exact hdb
        exact (processMeltRequest_good hgood hnamed).2 _ h
  · exact processMeltRequest_good hgood hdb

theorem MeltReserved.settled {request : MeltRequest} {operationId : Uuid} {quote : MeltQuote}
    {rows : List ProofRow} (h : MeltReserved env request operationId quote rows db db')
    (hdb : db.Settled) : db'.Settled := by
  intro r hr
  rw [h.proofs, List.mem_append] at hr
  rcases hr with hr | hr
  · exact hdb r hr
  · exact .inl (h.reserved.pending r hr).1

private theorem good_of_none (rows : List ProofRow) :
    ProofWriter.Good (rows.map fun r => (r.y, none)) := by
  intro e he state hs
  obtain ⟨r, -, rfl⟩ := List.mem_map.mp he
  cases hs

private theorem good_nil : ProofWriter.Good [] := fun _ he => nomatch he

private theorem addProofs_good {proofs : List Proof} {quoteId : QuoteId} {operation : Operation}
    {failure : MeltFailure}
    (h : ProofWriter.addProofs env proofs quoteId operation db = .err failure) :
    failure.writer.Good := by
  simp only [ProofWriter.addProofs, Tx.bind_err] at h
  rcases h with h | ⟨_, _, -, h | ⟨ys, _, -, h⟩⟩ <;> rw [guarded_err h]
  · exact good_nil
  · exact good_nil
  · intro e he state hs
    obtain ⟨y, -, rfl⟩ := List.mem_map.mp he
    cases hs

private theorem reserveMelt_good {now : Nat} {operationId : Uuid} {request : MeltRequest}
    {failure : MeltFailure}
    (h : reserveMelt env keysets now operationId request db = .err failure) :
    failure.writer.Good := by
  simp only [reserveMelt, Tx.bind_err] at h
  rcases h with h | ⟨input, _, -, h | ⟨writer, added, hadd, h | ⟨quote, checked, -, h |
    ⟨_, recorded, -, h⟩⟩⟩⟩
  · rw [guarded_err h]
    exact good_nil
  · exact addProofs_good h
  · obtain ⟨rows, t, -, rfl, -, -⟩ := writerAddProofs_ok hadd
    rw [guarded_err h]
    exact good_of_none rows
  · obtain ⟨rows, t, -, rfl, -, -⟩ := writerAddProofs_ok hadd
    rw [guarded_err h]
    exact good_of_none rows
  · cases h

theorem startMelt_good {now : Nat} {operationId : Uuid} {request : MeltRequest}
    (hdb : db.Settled) :
    (∀ r, startMelt env keysets backends now operationId request db = .ok r → r.1.1.Good) ∧
      ∀ failure, startMelt env keysets backends now operationId request db = .err failure →
        failure.writer.Good := by
  have hreserved : ∀ {writer : ProofWriter} {quote : MeltQuote} {reserved : Db},
      reserveMelt env keysets now operationId request db = .ok ((writer, quote), reserved) →
      writer.Good ∧ reserved.Settled := by
    intro writer quote reserved hreserve
    obtain ⟨rows, rfl, hres⟩ := reserveMelt_ok hreserve
    exact ⟨good_of_none rows, hres.settled hdb⟩
  have hhandled : ∀ {quote : MeltQuote} {reserved handled : Db} {internal : Option Amount},
      handleInternalMeltMint quote request reserved = .ok (internal, handled) →
      reserved.Settled → handled.Settled := by
    intro quote reserved handled internal hinternal hsettled
    rcases handleInternalMeltMint_ok hinternal with ⟨-, -, rfl⟩ | ⟨-, mintQuote, -, -, hcredit⟩
    · exact hsettled
    · rw [hcredit.frame]
      exact hsettled
  constructor
  · rintro ⟨⟨writer', start⟩, db'⟩ h
    simp only [startMelt, Tx.bind_ok, guarded_ok] at h
    obtain ⟨⟨writer, quote⟩, reserved, hreserve, internal, handled, hinternal, h⟩ := h
    obtain ⟨hgood, hsettled⟩ := hreserved hreserve
    cases internal with
    | none =>
        simp only [settleOrPay, Tx.bind_ok, guarded_ok, Tx.lift_ok, Tx.pure_ok,
          Prod.mk.injEq] at h
        obtain ⟨_, _, -, ⟨rfl, -⟩, -⟩ := h
        exact hgood
    | some spent =>
        simp only [settleOrPay, Tx.bind_ok, Tx.pure_ok, Prod.mk.injEq] at h
        obtain ⟨settled, _, hprocess, ⟨rfl, -⟩, -⟩ := h
        exact (processMeltRequest_good hgood (hhandled hinternal hsettled)).1 _ hprocess
  · intro failure h
    simp only [startMelt, Tx.bind_err] at h
    rcases h with h | ⟨⟨writer, quote⟩, reserved, hreserve, h | ⟨internal, handled, hinternal, h⟩⟩
    · exact reserveMelt_good h
    · rw [guarded_err h]
      exact (hreserved hreserve).1
    · obtain ⟨hgood, hsettled⟩ := hreserved hreserve
      have hinternal := guarded_ok.mp hinternal
      cases internal with
      | none =>
          simp only [settleOrPay, Tx.bind_err] at h
          rcases h with h | ⟨_, _, -, h⟩
          · rw [guarded_err h]
            exact hgood
          · cases h
      | some spent =>
          simp only [settleOrPay, Tx.bind_err] at h
          rcases h with h | ⟨_, _, -, h⟩
          · exact (processMeltRequest_good hgood (hhandled hinternal hsettled)).2 _ h
          · cases h

/-- Rolling a writer back removes exactly the proofs that its melt has added, or nothing. -/
theorem rollback_cases {writer : ProofWriter} (hgood : writer.Good) (hdb : db.Settled) :
    (writer.rollback db).2 = db ∨
      ((writer.Additions ∧ db.Removes (writer.withOriginal none)) ∧
        (writer.rollback db).2 =
          { db with proofs := db.proofs.delete (Db.removable (writer.withOriginal none)) }) := by
  rcases Tx.commit_cases writer.resetProofsToOriginalState db with ⟨_, db', h, hc⟩ | ⟨-, hc, -⟩
  · refine .inr ?_
    simp only [ProofWriter.resetProofsToOriginalState, Tx.bind_ok, Tx.mapErr_ok] at h
    obtain ⟨_, mid, hloop, hremove⟩ := h
    obtain ⟨hnone, rfl⟩ : writer.Additions ∧ mid = db := by
      cases hstates : ((writer.filterMap Prod.snd).dedup).filter fun state => state ≠ .spent with
      | nil =>
          rw [hstates] at hloop
          refine ⟨?_, ((Tx.pure_ok (ε := Error)).mp hloop).2.symm⟩
          intro e he state hes
          by_contra hne
          have hmem : state ∈ ((writer.filterMap Prod.snd).dedup).filter fun s => s ≠ .spent := by
            apply List.mem_filter.mpr
            exact ⟨List.mem_dedup.mpr (List.mem_filterMap.mpr ⟨e, he, hes⟩), by simpa using hne⟩
          rw [hstates] at hmem
          cases hmem
      | cons state rest =>
          -- a stored proof is pending or spent, and neither may become pending
          exfalso
          have hmem : state ∈ ((writer.filterMap Prod.snd).dedup).filter fun s => s ≠ .spent := by
            rw [hstates]
            exact List.mem_cons_self
          obtain ⟨hmem, hne⟩ := List.mem_filter.mp hmem
          obtain ⟨e, he, hes⟩ := List.mem_filterMap.mp (List.mem_dedup.mp hmem)
          have hpending : state = .pending := by
            rcases hgood e he state hes with h | h
            · exact h
            · simp [h] at hne
          subst hpending
          rw [hstates] at hloop
          have hbind : ((do
              let _ ← (Db.updateProofsStates (writer.withOriginal (some .pending))
                .pending).mapErr Error.ofDb) >>= fun _ => rest.forM fun state => do
              let _ ← (Db.updateProofsStates (writer.withOriginal (some state))
                state).mapErr Error.ofDb) db = .ok ((), mid) := hloop
          simp only [Tx.bind_ok, Tx.mapErr_ok] at hbind
          obtain ⟨_, _, ⟨_, _, hupd, -⟩, -⟩ := hbind
          obtain ⟨hlen, hall, -⟩ := Db.updateProofsStates_ok hupd
          have hy : e.1 ∈ writer.withOriginal (some .pending) :=
            List.mem_map_of_mem (List.mem_filter.mpr ⟨he, by simpa using hes⟩)
          obtain ⟨r, hr, hkey⟩ := Table.exists_row_of_length hlen hy
          have := hall r hr (hkey ▸ hy)
          rcases hdb r hr with h | h <;> rw [h] at this <;> cases this
    obtain ⟨hlen, rfl⟩ := Db.removeProofs_ok hremove
    exact ⟨⟨hnone, hlen⟩, by rw [ProofWriter.rollback, hc]⟩
  · exact .inl hc

/-- A writer that has only added proofs is reset by removing them. -/
theorem ProofWriter.Additions.reset_eq {writer : ProofWriter} (hnew : writer.Additions) :
    writer.resetProofsToOriginalState =
      (Db.removeProofs (writer.withOriginal none)).mapErr Error.ofDb := by
  have hstates : (((writer.filterMap Prod.snd).dedup).filter fun state => state ≠ .spent) = [] := by
    apply List.filter_eq_nil_iff.mpr
    intro state hmem
    obtain ⟨e, he, hes⟩ := List.mem_filterMap.mp (List.mem_dedup.mp hmem)
    simp [hnew e he state hes]
  rw [ProofWriter.resetProofsToOriginalState, hstates]
  rfl

/-- A writer that has only added proofs removes them when all of them are stored and unspent. -/
theorem rollback_removes {writer : ProofWriter} (hnew : writer.Additions)
    (hall : db.Removes (writer.withOriginal none)) :
    writer.rollback db = (.ok (),
      { db with proofs := db.proofs.delete (Db.removable (writer.withOriginal none)) }) := by
  rw [ProofWriter.rollback, hnew.reset_eq, Tx.commit]
  simp only [Tx.mapErr, Db.removeProofs_of_length hall, Outcome.mapErr]

end Melts

end Cdk
