import Cdk.Mint.Holdings

/-!
# Solvency

What the mint has signed is covered by what it has burnt and by what it was paid
from outside. The balance that every step keeps also counts what quotes were paid
and have not issued yet, and the change that melts have promised and not signed
yet.

A rollback or a compensation that deletes a proof of another operation breaks the
balance: a proof of the same secret and a smaller amount can take the place of
the deleted one, and the swap that had reserved the larger one burns the smaller.
-/

namespace Cdk

open Lib

/-! ## Totals -/

namespace Db

/-- The amount of all stored signatures. -/
def signed (db : Db) : Nat := db.blindSignatures.sum (signedFor fun _ => true)

/-- The amount of all spent proofs. -/
def spent (db : Db) : Nat :=
  db.proofs.sum fun r => if r.state = .spent then r.amount.toNat else 0

/-- The amount of all payments on mint quotes. -/
def paid (db : Db) : Nat := db.mintQuotes.sum fun q => q.amountPaid.toNat

/-- The amount that all mint quotes have issued. -/
def issuedAmount (db : Db) : Nat := db.mintQuotes.sum fun q => q.amountIssued.toNat

end Db

/-- The change that a melt has promised and not signed yet. -/
def MeltTask.promised (task : MeltTask) : Nat :=
  match task.phase with
  | .paying _ => 0
  | .change c => Amount.total (c.messages.map BlindedMessage.amount)

namespace World

/-- The amount of the payments on mint quotes that came from outside. -/
def external (w : World) : Nat :=
  w.db.payments.sum fun row => if row.paymentId ∈ w.internal then 0 else row.amount.toNat

/-- The change that melts have promised and not signed yet. -/
def promised (w : World) : Nat := (w.melts.map MeltTask.promised).sum

end World

/-- The signatures are covered by the spent proofs and by the payments from outside. -/
def Solvent (w : World) : Prop := w.db.signed ≤ w.db.spent + w.external

instance (w : World) : Decidable (Solvent w) :=
  inferInstanceAs (Decidable (w.db.signed ≤ w.db.spent + w.external))

/-- The balance of the mint. -/
structure Balanced (w : World) : Prop where
  recorded : ∀ paymentId ∈ w.internal, ∃ row ∈ w.db.payments.rows, row.paymentId = paymentId
  balance : w.db.signed + w.db.paid + w.promised ≤
    w.db.spent + w.external + w.db.issuedAmount

section Totals

variable {env : Env} {db db' : Db}

theorem signed_of_added {messages : List PublicKey} {signatures : List BlindSignature}
    {quoteId : Option QuoteId} {u : Unit}
    (h : Db.addBlindSignatures messages signatures quoteId db = .ok (u, db')) :
    db'.signed = db.signed + Amount.total (signatures.map BlindSignature.amount) := by
  simpa [Db.signed] using Db.addBlindSignatures_sum (p := fun _ => true) (b := true) h rfl
    fun _ _ _ _ => rfl

theorem signed_of_messages {quoteId : Option QuoteId} {operation : Operation}
    {messages : List BlindedMessage} (h : db'.blindSignatures.rows = db.blindSignatures.rows ++
      Db.messageRows quoteId operation messages) : db'.signed = db.signed := by
  rw [Db.signed, Table.sum_of_rows _ h]
  simp [Db.signed, Db.messageRows, Db.signedFor, Function.comp_def]

theorem signed_of_deleted {p : SignatureRow → Bool}
    (h : db'.blindSignatures = db.blindSignatures.delete p) (hp : ∀ r, p r = true → r.c = none) :
    db'.signed = db.signed := by
  rw [Db.signed, h]
  exact Table.sum_delete_eq fun r _ hr => Db.signedFor_unsigned (hp r hr)

/-- Marking unspent proofs spent adds their amounts. -/
theorem spent_of_states {ys : List PublicKey}
    (hallowed : ∀ r ∈ db.proofs.rows, r.y ∈ ys → r.state.transitionAllowed .spent = true)
    (hproofs : db'.proofs = db.proofs.update (Db.setState ys .spent) (Db.setState_y ys .spent)) :
    db'.spent = db.spent + db.proofs.sum fun r => if r.y ∈ ys then r.amount.toNat else 0 := by
  rw [Db.spent, hproofs, Table.sum_update, Db.spent, ← Table.sum_add]
  apply Table.sum_congr
  intro r hr
  by_cases hy : r.y ∈ ys
  · have hne : r.state ≠ .spent := by
      intro hs
      have := hallowed r hr hy
      rw [hs] at this
      cases this
    simp [Db.setState_state, hy, hne]
  · simp [Db.setState_state, hy]

/-- Burning all proofs of an operation burns their amount. -/
theorem opAmount_le_spent (operation : Operation) {ys : List PublicKey}
    (hallowed : ∀ r ∈ db.proofs.rows, r.y ∈ ys → r.state.transitionAllowed .spent = true)
    (hproofs : db'.proofs = db.proofs.update (Db.setState ys .spent) (Db.setState_y ys .spent))
    (hown : ∀ r ∈ db.proofs.rows, r.operation = operation → r.y ∈ ys) :
    db.spent + db.opAmount operation ≤ db'.spent := by
  rw [spent_of_states hallowed hproofs]
  refine Nat.add_le_add_left (Table.sum_le_sum fun r hr => ?_) _
  by_cases ho : r.operation = operation
  · simp [ho, hown r hr ho]
  · simp [ho]

theorem spent_of_reserved {inputs : List Proof} {quoteId : Option QuoteId} {operation : Operation}
    {rows : List ProofRow} (hres : Db.Reserved env inputs quoteId operation rows)
    (hrows : db'.proofs.rows = db.proofs.rows ++ rows) : db'.spent = db.spent := by
  have hzero : (rows.map fun r => if r.state = .spent then r.amount.toNat else 0) =
      rows.map fun _ => 0 :=
    List.map_congr_left fun r hr => if_neg (by simp [(hres.pending r hr).1])
  rw [Db.spent, Table.sum_of_rows _ hrows, hzero]
  simp [Db.spent]

theorem spent_of_removed {ys : List PublicKey}
    (hproofs : db'.proofs = db.proofs.delete (Db.removable ys)) : db'.spent = db.spent := by
  rw [Db.spent, hproofs]
  refine Table.sum_delete_eq fun r _ hp => if_neg ?_
  have hp' : r.y ∈ ys ∧ ¬ r.state = .spent := by simpa [Db.removable] using hp
  exact hp'.2

theorem Credit.totals {quote : MintQuote} {amount : Amount} {paymentId : String}
    (h : Credit quote amount paymentId db db') :
    db'.paid = db.paid + amount.toNat ∧ db'.issuedAmount = db.issuedAmount := by
  obtain ⟨paid, hpaid, hquotes⟩ := h.quotes
  constructor
  · rw [Db.paid, hquotes]
    apply Table.sum_update_row h.mem (by simp [Db.setPaid, hpaid])
    intro q _ hne
    rw [Db.setPaid, if_neg hne]
  · rw [Db.issuedAmount, hquotes, Table.sum_update]
    apply Table.sum_congr
    intro q _
    unfold Db.setPaid
    split <;> rfl

theorem Issue.totals {quote : MintQuote} {total : Nat} (h : Issue quote total db db') :
    db'.issuedAmount = db.issuedAmount + total ∧ db'.paid = db.paid ∧
      db'.signed = db.signed + total := by
  obtain ⟨issued, hissued, -, hquotes⟩ := h.quotes
  refine ⟨?_, ?_, by simpa [Db.signed] using h.signed fun _ => true⟩
  · rw [Db.issuedAmount, hquotes]
    apply Table.sum_update_row h.mem (by simp [Db.setIssued, hissued])
    intro q _ hne
    rw [Db.setIssued, if_neg hne]
  · rw [Db.paid, hquotes, Table.sum_update]
    apply Table.sum_congr
    intro q _
    unfold Db.setIssued
    split <;> rfl

end Totals

/-! ## Every step -/

section Steps

variable {env : Env} {backends : Backends} {w w' : World} {a : Action}

private theorem promised_erase {task : MeltTask} (htask : task ∈ w.melts) :
    task.promised + ((w.melts.erase task).map MeltTask.promised).sum = w.promised :=
  List.sum_map_erase MeltTask.promised htask

private theorem promised_changeTask (operationId : Uuid) (writer : ProofWriter)
    (change : Option PendingChange) :
    ((World.changeTask operationId writer change).map MeltTask.promised).sum =
      promised change := by
  cases change <;> simp [World.changeTask, MeltTask.promised, promised]

/-- A step that leaves the mint quotes alone keeps the balance when it burns at least what it
signs and promises. -/
theorem Balanced.of_le (hw : Balanced w) (hinternal : w'.internal = w.internal)
    (hpayments : w'.db.payments = w.db.payments) (hquotes : w'.db.mintQuotes = w.db.mintQuotes)
    (h : w'.db.signed + w'.promised + w.db.spent ≤ w.db.signed + w.promised + w'.db.spent) :
    Balanced w' := by
  have hbalance := hw.balance
  refine ⟨by rw [hinternal, hpayments]; exact hw.recorded, ?_⟩
  have hexternal : w'.external = w.external := by
    rw [World.external, World.external, hinternal, hpayments]
  have hpaid : w'.db.paid = w.db.paid := by rw [Db.paid, Db.paid, hquotes]
  have hissued : w'.db.issuedAmount = w.db.issuedAmount := by
    rw [Db.issuedAmount, Db.issuedAmount, hquotes]
  omega

/-- A payment from outside is credited. -/
theorem Balanced.credit {quote : MintQuote} {amount : Amount} {paymentId : String} {db' : Db}
    (hw : Balanced w) (h : Credit quote amount paymentId w.db db') :
    Balanced { w with db := db' } := by
  have hbalance := hw.balance
  obtain ⟨hpaid, hissued⟩ := h.totals
  have hsigned : db'.signed = w.db.signed := by rw [h.frame]; rfl
  have hspent : db'.spent = w.db.spent := by rw [h.frame]; rfl
  have hnew : paymentId ∉ w.internal := by
    intro hmem
    obtain ⟨row, hrow, heq⟩ := hw.recorded paymentId hmem
    exact h.fresh row hrow heq
  have hexternal : World.external { w with db := db' } = w.external + amount.toNat := by
    simp [World.external, Table.sum_of_rows _ h.payments, hnew]
  constructor
  · intro id hid
    obtain ⟨row, hrow, heq⟩ := hw.recorded id hid
    exact ⟨row, by simp [h.payments, hrow], heq⟩
  · change db'.signed + db'.paid + w.promised ≤ db'.spent + World.external { w with db := db' } +
      db'.issuedAmount
    omega

theorem Balanced.credits {db' : Db} (hw : Balanced w)
    (h : Relation.ReflTransGen Credited w.db db') : Balanced { w with db := db' } := by
  induction h with
  | refl => exact hw
  | tail _ hstep ih =>
      obtain ⟨quote, amount, paymentId, hcredit⟩ := hstep
      exact ih.credit hcredit

theorem Balanced.issue {quote : MintQuote} {total : Nat} {db' : Db} (hw : Balanced w)
    (h : Issue quote total w.db db') : Balanced { w with db := db' }.tick := by
  have hbalance := hw.balance
  obtain ⟨hissued, hpaid, hsigned⟩ := h.totals
  have hspent : db'.spent = w.db.spent := by rw [h.frame]; rfl
  have hpayments : db'.payments = w.db.payments := by rw [h.frame]
  have hexternal : World.external { w with db := db' }.tick = w.external := by
    rw [World.external, World.external, World.tick, hpayments]
  constructor
  · change ∀ id ∈ w.internal, ∃ row ∈ db'.payments.rows, row.paymentId = id
    rw [hpayments]
    exact hw.recorded
  · change db'.signed + db'.paid + w.promised ≤ db'.spent +
      World.external { w with db := db' }.tick + db'.issuedAmount
    omega

/-- The inputs that an internal settlement burns are worth what the quote and the change take. -/
theorem spent_of_settledInternally {request : MeltRequest} {quote : MeltQuote}
    {rows : List ProofRow} {mintQuote : MintQuote} {reserved credited db' : Db}
    {change : Option PendingChange} {ys : List PublicKey} (hids : OperationIds w)
    (hst : Stored env w) (hreserved : MeltReserved env request w.nextId quote rows w.db reserved)
    (hcredit : Credit mintQuote quote.amount request.quote.toText reserved credited)
    (hsettled : MeltSettled env request.quote quote.amount change ys credited db') :
    w.db.spent + (quote.amount.toNat + promised change) ≤ db'.spent := by
  have hproofs : credited.proofs = reserved.proofs := by rw [hcredit.frame]
  have hrequests : credited.meltRequests = reserved.meltRequests := by rw [hcredit.frame]
  have hkeyed : ∀ r ∈ credited.proofs.rows, env.hashToCurve (utf8 r.secret) = some r.y :=
    hproofs ▸ (ProofsKept.of_reserved hreserved.reserved hreserved.proofs).keyed hst.keyed
  have hheld : MeltHeld reserved w.nextId quote := by
    apply hreserved.held
    intro r hr heq
    have hlt := hids.proofs r hr
    rw [heq] at hlt
    exact Nat.lt_irrefl _ hlt
  have hfunded : quote.amount.toNat + promised change ≤
      reserved.opAmount ⟨.melt, w.nextId⟩ := by
    obtain ⟨row, hrow, hid, hcase⟩ := hsettled.request
    rw [hrequests] at hrow
    rcases hcase with rfl | hle
    · exact hreserved.covered.trans (hreserved.reserved.le_opAmount hreserved.proofs)
    · have := hheld.funded row hrow (hid.trans hreserved.quoteId.symm)
      omega
  have hburnt : credited.spent + credited.opAmount ⟨.melt, w.nextId⟩ ≤ db'.spent := by
    apply opAmount_le_spent _ hsettled.allowed hsettled.proofs
    intro r hr hop
    rw [hsettled.burnt hkeyed hr, ← hreserved.quoteId]
    exact hheld.own r (hproofs ▸ hr) hop
  have hop : credited.opAmount ⟨.melt, w.nextId⟩ = reserved.opAmount ⟨.melt, w.nextId⟩ := by
    rw [Db.opAmount, Db.opAmount, hproofs]
  have hspent : credited.spent = w.db.spent := by
    rw [Db.spent, hproofs]
    exact spent_of_reserved hreserved.reserved hreserved.proofs
  omega

/-- A payment that the mint makes to itself is not one from outside. -/
theorem external_of_internal {quoteId : QuoteId} {name : String} {amount : Amount} {db' : Db}
    (hpayments : db'.payments.rows = w.db.payments.rows ++ [⟨quoteId, name, amount⟩])
    (hfresh : ∀ row ∈ w.db.payments.rows, row.paymentId ≠ name) :
    db'.payments.sum (fun row =>
      if row.paymentId ∈ w.internal ++ [name] then 0 else row.amount.toNat) = w.external := by
  rw [Table.sum_of_rows _ hpayments, World.external]
  simp only [List.map_singleton, List.sum_singleton]
  rw [if_pos (by simp), Nat.add_zero]
  apply Table.sum_congr
  intro row hrow
  simp [hfresh row hrow]

/-- A melt that is settled internally moves value from its inputs to a mint quote and to its
change. -/
theorem Balanced.settleInternally {request : MeltRequest} {quote : MeltQuote}
    {rows : List ProofRow} {mintQuote : MintQuote} {reserved credited db' : Db}
    {change : Option PendingChange} {ys : List PublicKey} {writer : ProofWriter}
    (hw : Balanced w) (hids : OperationIds w) (hst : Stored env w)
    (hreserved : MeltReserved env request w.nextId quote rows w.db reserved)
    (hcredit : Credit mintQuote quote.amount request.quote.toText reserved credited)
    (hsettled : MeltSettled env request.quote quote.amount change ys credited db') :
    Balanced { w with
      db := db'
      melts := w.melts ++ World.changeTask w.nextId writer change
      internal := w.internal ++ [request.quote.toText] }.tick := by
  have hbalance := hw.balance
  have hspent := spent_of_settledInternally hids hst hreserved hcredit hsettled
  obtain ⟨hpaid, hissued⟩ := hcredit.totals
  have hsigned : db'.signed = w.db.signed := by
    have hcredited : credited.signed = reserved.signed := by rw [hcredit.frame]; rfl
    rw [signed_of_deleted hsettled.signatures, hcredited, signed_of_messages hreserved.signatures]
    intro r hr
    have : change.isNone = true ∧ r.quoteId = some request.quote ∧ r.c = none := by
      simpa [Db.reservedFor] using hr
    exact this.2.2
  -- the mint quote is paid, and no payment from outside is added
  have hquotes : db'.mintQuotes = credited.mintQuotes := by rw [hsettled.frame]
  have hold : reserved.mintQuotes = w.db.mintQuotes := by rw [hreserved.frame]
  have hres : reserved.payments = w.db.payments := by rw [hreserved.frame]
  have hpayments : db'.payments.rows = w.db.payments.rows ++
      [⟨mintQuote.id, request.quote.toText, quote.amount⟩] := by
    have hset : db'.payments = credited.payments := by rw [hsettled.frame]
    rw [hset, hcredit.payments, hres]
  have hpaid' : db'.paid = w.db.paid + quote.amount.toNat := by
    rw [Db.paid, hquotes, ← Db.paid, hpaid, Db.paid, hold, Db.paid]
  have hissued' : db'.issuedAmount = w.db.issuedAmount := by
    rw [Db.issuedAmount, hquotes, ← Db.issuedAmount, hissued, Db.issuedAmount, hold,
      Db.issuedAmount]
  have hexternal := external_of_internal hpayments fun row hrow =>
    hcredit.fresh row (hres ▸ hrow)
  constructor
  · intro id hid
    rcases List.mem_append.mp hid with hid | hid
    · obtain ⟨row, hrow, heq⟩ := hw.recorded id hid
      exact ⟨row, by simp [World.tick, hpayments, hrow], heq⟩
    · refine ⟨⟨mintQuote.id, request.quote.toText, quote.amount⟩, ?_,
        (List.mem_singleton.mp hid).symm⟩
      change _ ∈ db'.payments.rows
      rw [hpayments]
      exact List.mem_append_right _ (List.mem_singleton.mpr rfl)
  · have hpromised : ((w.melts ++ World.changeTask w.nextId writer change).map
        MeltTask.promised).sum = w.promised + promised change := by
      rw [List.map_append, List.sum_append, promised_changeTask]
      rfl
    change db'.signed + db'.paid + ((w.melts ++ World.changeTask w.nextId writer change).map
      MeltTask.promised).sum ≤ db'.spent + (db'.payments.sum fun row =>
      if row.paymentId ∈ w.internal ++ [request.quote.toText] then 0 else row.amount.toNat) +
      db'.issuedAmount
    omega

theorem Balanced.finalizeSwap {task : SwapTask} {signatures : List BlindSignature} {stored : Db}
    (hw : Balanced w) (hheld : SwapHeld w.db task) (hsigned : task.signatures = some signatures)
    (h : SwapStored task.setup signatures w.db stored) (keepSaga : Bool) :
    Balanced { w.dropSwap task with
      db := deleteSagaUnless keepSaga task.setup.operationId stored
      finalized := w.finalized ++ [task.setup] } := by
  obtain ⟨t, ht⟩ := deleteSagaUnless_frame keepSaga task.setup.operationId stored
  obtain ⟨u, mid, hadd, hsigs⟩ := h.signed
  have htotal := hheld.funded
  rw [← hheld.signed signatures hsigned] at htotal
  have hspent := opAmount_le_spent task.setup.operation h.allowed h.proofs hheld.own
  have hstored : stored.signed =
      w.db.signed + Amount.total (signatures.map BlindSignature.amount) := by
    rw [Db.signed, hsigs, ← Db.signed]
    exact signed_of_added hadd
  refine hw.of_le rfl (by rw [ht, h.frame]) (by rw [ht, h.frame]) ?_
  rw [ht]
  change stored.signed + w.promised + w.db.spent ≤ w.db.signed + w.promised + stored.spent
  omega

theorem Balanced.settleMelt {task : MeltTask} {quote : MeltQuote} {spent : Amount}
    {change : Option PendingChange} {ys : List PublicKey} {writer : ProofWriter} {db' : Db}
    (hw : Balanced w) (hst : Stored env w) (htask : task ∈ w.melts)
    (hheld : MeltHeld w.db task.operationId quote)
    (h : MeltSettled env quote.id spent change ys w.db db') :
    Balanced { w with
      db := db'
      melts := w.melts.erase task ++ World.changeTask task.operationId writer change } := by
  have hpromised : ((w.melts.erase task ++ World.changeTask task.operationId writer change).map
      MeltTask.promised).sum ≤ w.promised + promised change := by
    rw [List.map_append, List.sum_append, promised_changeTask]
    have := promised_erase htask
    omega
  have hspent : w.db.spent + w.db.opAmount ⟨.melt, task.operationId⟩ ≤ db'.spent := by
    apply opAmount_le_spent _ h.allowed h.proofs
    intro r hr hop
    rw [h.burnt hst.keyed hr]
    exact hheld.own r hr hop
  have hfunded : promised change ≤ w.db.opAmount ⟨.melt, task.operationId⟩ := by
    obtain ⟨row, hrow, hid, rfl | hle⟩ := h.request
    · exact Nat.zero_le _
    · have := hheld.funded row hrow hid
      omega
  have hsigned : db'.signed = w.db.signed := by
    apply signed_of_deleted h.signatures
    intro r hr
    have : change.isNone = true ∧ r.quoteId = some quote.id ∧ r.c = none := by
      simpa [Db.reservedFor] using hr
    exact this.2.2
  refine hw.of_le rfl (by rw [h.frame]) (by rw [h.frame]) ?_
  change db'.signed + ((w.melts.erase task ++ World.changeTask task.operationId writer change).map
    MeltTask.promised).sum + w.db.spent ≤ w.db.signed + w.promised + db'.spent
  omega

theorem Balanced.storeChange {task : MeltTask} {change : PendingChange}
    {signatures : List BlindSignature} {db' : Db} (hw : Balanced w) (htask : task ∈ w.melts)
    (hphase : task.phase = .change change)
    (hsign : signatures.map BlindSignature.amount = change.messages.map BlindedMessage.amount)
    (h : ChangeStored change signatures w.db db') : Balanced { w.endMelt task with db := db' } := by
  obtain ⟨u, mid, hadd, hsigs⟩ := h.signed
  have hmid := signed_of_added hadd
  have hsigned : db'.signed = mid.signed := by
    apply signed_of_deleted hsigs
    intro r hr
    have : r.quoteId = some change.quoteId ∧ r.c = none := by simpa [Db.reservedFor] using hr
    exact this.2
  have hspent : db'.spent = w.db.spent := by rw [h.frame]; rfl
  have htotal : task.promised = Amount.total (signatures.map BlindSignature.amount) := by
    rw [MeltTask.promised, hphase, hsign]
  have herase := promised_erase htask
  refine hw.of_le rfl (by rw [h.frame]) (by rw [h.frame]) ?_
  change db'.signed + ((w.melts.erase task).map MeltTask.promised).sum + w.db.spent ≤
    w.db.signed + w.promised + db'.spent
  omega

theorem Move.balanced (h : Move env w a w') (hheld : HeldInv env w) (hw : Balanced w) :
    Balanced w' := by
  have herase : ∀ task ∈ w.melts,
      ((w.melts.erase task).map MeltTask.promised).sum ≤ w.promised := by
    intro task htask
    have := promised_erase htask
    omega
  cases h with
  | createMintQuote quote t hid hzero hrows =>
      have hbalance := hw.balance
      refine ⟨hw.recorded, ?_⟩
      have hpaid : t.sum (fun q => q.amountPaid.toNat) = w.db.paid := by
        rw [Table.sum_of_rows _ hrows]
        simp [Db.paid, hzero.1, Amount.zero]
      have hissued : t.sum (fun q => q.amountIssued.toNat) = w.db.issuedAmount := by
        rw [Table.sum_of_rows _ hrows]
        simp [Db.issuedAmount, hzero.2, Amount.zero]
      change w.db.signed + t.sum (fun q => q.amountPaid.toNat) + w.promised ≤
        w.db.spent + w.external + t.sum (fun q => q.amountIssued.toNat)
      omega
  | createMeltQuote quote t hid hrows => exact hw.of_le rfl rfl rfl (Nat.le_refl _)
  | credit db' h => exact hw.credits h
  | issue quote total db' h => exact hw.issue h
  | setupSwap request setup rows db' hid h =>
      refine hw.of_le rfl (by rw [World.tick, h.frame]) (by rw [World.tick, h.frame]) ?_
      change db'.signed + w.promised + w.db.spent ≤ w.db.signed + w.promised + db'.spent
      rw [signed_of_messages h.signatures, spent_of_reserved h.reserved h.proofs]
  | finalizeSwap task signatures stored keepSaga htask hsigned h =>
      exact hw.finalizeSwap (hheld.held.swaps task htask) hsigned h keepSaga
  | compensate task db' htask hremoved h =>
      refine hw.of_le rfl (by rw [h.frame]) (by rw [h.frame]) ?_
      change db'.signed + w.promised + w.db.spent ≤ w.db.signed + w.promised + db'.spent
      rw [spent_of_removed h.proofs, signed_of_deleted h.signatures]
      intro r hr
      have : r.blindedMessage ∈ task.saga.blindedSecrets ∧ r.c = none := by
        simpa [Db.unsigned] using hr
      exact this.2
  | deleteSaga task fails htask hremoved =>
      obtain ⟨t, ht⟩ := deleteSagaUnless_frame fails task.saga.operationId w.db
      rw [World.deleteSaga, ht]
      exact hw.of_le rfl rfl rfl (Nat.le_refl _)
  | startMelt request quote rows writer db' h hgood =>
      refine hw.of_le rfl (by rw [World.tick, h.frame]) (by rw [World.tick, h.frame]) ?_
      have hpromised : World.promised { w with
          db := db'
          melts := w.melts ++ [MeltTask.mk w.nextId writer (.paying quote)] }.tick = w.promised := by
        simp [World.promised, World.tick, MeltTask.promised]
      rw [hpromised]
      change db'.signed + w.promised + w.db.spent ≤ w.db.signed + w.promised + db'.spent
      rw [signed_of_messages h.signatures, spent_of_reserved h.reserved h.proofs]
  | settleInternally request quote rows mintQuote reserved credited change ys writer db' hreserved
      hcredit hsettled hgood =>
      exact hw.settleInternally hheld.ids hheld.stored hreserved hcredit hsettled
  | endMelt task htask =>
      refine hw.of_le rfl rfl rfl ?_
      change w.db.signed + ((w.melts.erase task).map MeltTask.promised).sum + w.db.spent ≤
        w.db.signed + w.promised + w.db.spent
      have := herase task htask
      omega
  | releaseMelt task writer htask hgood =>
      refine hw.of_le rfl rfl rfl ?_
      change w.db.signed + ((w.melts.erase task).map MeltTask.promised).sum + w.db.spent ≤
        w.db.signed + w.promised + w.db.spent
      have := herase task htask
      omega
  | settleMelt task quote spent change ys writer db' htask hphase h hgood =>
      exact hw.settleMelt hheld.stored htask (hheld.held.melts task htask quote hphase) h
  | storeChange task change signatures db' htask hphase hsign h =>
      exact hw.storeChange htask hphase hsign h
  | rollback task htask =>
      obtain ⟨t, ht⟩ := rollback_frame task.writer w.db
      refine hw.of_le rfl (by rw [World.rollback, ht]) (by rw [World.rollback, ht]) ?_
      have hspent : (w.rollback task).db.spent = w.db.spent := by
        rcases rollback_cases (hheld.stored.rollbacks task htask) hheld.stored.settled with h |
          ⟨-, h⟩
        · rw [World.rollback, h]
        · rw [World.rollback, h]
          exact spent_of_removed rfl
      rw [hspent, World.rollback, ht]
      exact Nat.le_refl _
  | restart check db' h =>
      refine hw.of_le rfl (by rw [h.frame]) (by rw [h.frame]) ?_
      have hspent : db'.spent = w.db.spent := by rw [h.frame]; rfl
      change db'.signed + 0 + w.db.spent ≤ w.db.signed + w.promised + db'.spent
      rw [hspent, Db.signed, h.signed, ← Db.signed]
      omega
  | crash _ =>
      refine hw.of_le rfl rfl rfl ?_
      change w.db.signed + 0 + w.db.spent ≤ w.db.signed + w.promised + w.db.spent
      omega
  | _ => exact hw.of_le rfl rfl rfl (Nat.le_refl _)

/-- What the quotes have issued is covered by what they were paid. -/
theorem Balanced.solvent (hw : Balanced w) (hl : Ledger w.db) : Solvent w := by
  have hcovered : w.db.issuedAmount ≤ w.db.paid := Table.sum_le_sum hl.covered
  have hbalance := hw.balance
  unfold Solvent
  omega

theorem balanced_run {keysets : Keysets} {actions : List Action}
    (h : Along (World.step env backends) OwnProofs (World.init keysets) actions) :
    Balanced (World.reached env backends keysets actions) := by
  have hinit : Balanced (World.init keysets) := by
    constructor <;>
      simp [World.init, Db.empty, Db.signed, Db.paid, World.promised]
  have hstep : ∀ w a, HeldInv env w ∧ Balanced w → OwnProofs w a →
      HeldInv env (w.step env backends a) ∧ Balanced (w.step env backends a) := by
    intro w a hw hown
    have hmove := step_move env backends w a
    exact ⟨hmove.heldInv hown hw.1, hmove.balanced hw.1 hw.2⟩
  exact (invariant_along hstep ⟨heldInv_init keysets, hinit⟩ h).2

end Steps

/-- In every run in which compensations, recoveries and rollbacks delete only proofs of their own
operation, the mint is solvent. -/
theorem mint_solvent (env : Env) (backends : Backends) (keysets : Keysets) (actions : List Action)
    (h : Along (World.step env backends) OwnProofs (World.init keysets) actions) :
    Solvent (World.reached env backends keysets actions) :=
  (balanced_run h).solvent (quotesInv_run keysets actions).ledger

/-! ## A run that steals a proof -/

/-- A quote of nine, and a melt quote that asks for its invoice. -/
def sampleMintQuote : MintQuote :=
  ⟨.uuid 0, some 9, .sat, "lnbc1", .label "l1", none, .zero, .zero, .bolt11⟩

def sampleMeltQuote : MeltQuote :=
  ⟨.uuid 2, .sat, 8, ⟨false, "lnbc1", some (.sat, 8)⟩, .zero, .unpaid,
    none, none, .bolt11⟩

/-- The input `a` of eight. -/
def sampleInputs : List Proof := [sampleProof 8 "a"]

def sampleY : PublicKey := ⟨false, 353⟩

/-- Nine are paid and issued as eight and one, and a melt of eight fails because its invoice is
paid already. -/
def sampleFailedMelt : List Action :=
  [.createMintQuote sampleMintQuote,
    .notifyPayment ⟨.label "l1", 9, .sat, "p1"⟩,
    .issue [sampleKeyset]
      ⟨.uuid 0, [sampleMessage 8 10, sampleMessage 1 11], none⟩,
    .createMeltQuote sampleMeltQuote,
    .startMelt 0 ⟨.uuid 2, sampleInputs, none⟩ false]

/-- The rollback that the failed melt has left. -/
def sampleRollback : Action := .rollback ⟨3, [(sampleY, none)]⟩

def sampleSetup : SwapSetup := ⟨4, [sampleMessage 8 20], [sampleY]⟩

/-- A swap of the same input is signed and completed. -/
def sampleCompletion : List Action :=
  [.signSwap ⟨sampleSetup, none⟩ false,
    .finalizeSwap ⟨sampleSetup, some [⟨8, .v1 1, ⟨false, 21⟩⟩]⟩ none]

/-- The rollback runs after the swap has reserved the input. A proof of one with the same secret
takes its place, and the swap burns that one. -/
def sampleSteal : List Action :=
  sampleFailedMelt ++
    [.setupSwap 0 ⟨sampleInputs, [sampleMessage 8 20]⟩, sampleRollback,
      .setupSwap 0 ⟨[sampleProof 1 "a"], [sampleMessage 1 21]⟩] ++
    sampleCompletion

/-- The rollback runs before the swap. -/
def sampleHonest : List Action :=
  sampleFailedMelt ++ [sampleRollback,
    .setupSwap 0 ⟨sampleInputs, [sampleMessage 8 20]⟩] ++ sampleCompletion

/-- Seventeen are signed, one is burnt and nine were paid. -/
theorem mint_insolvent_after_rollback :
    ¬ Solvent (World.reached sampleEnv (fun _ _ => true) [sampleKeyset] sampleSteal) := by
  decide +kernel

theorem mint_solvent_honest :
    Along (World.step sampleEnv fun _ _ => true) OwnProofs (World.init [sampleKeyset])
        sampleHonest ∧
      (World.reached sampleEnv (fun _ _ => true) [sampleKeyset] sampleHonest).finalized =
        [sampleSetup] ∧
      Solvent (World.reached sampleEnv (fun _ _ => true) [sampleKeyset] sampleHonest) :=
  ⟨by decide +kernel, by decide +kernel,
    mint_solvent sampleEnv (fun _ _ => true) [sampleKeyset] sampleHonest (by decide +kernel)⟩

end Cdk
