import Cdk.Mint.Ownership

/-!
# What operations in flight hold

In a run in which only own proofs are deleted, a swap between its transactions
still has every input it has reserved, a melt that waits for its payment still
has inputs worth what its request records, and a proof that is spent for a quote
belongs to a paid quote.
-/

namespace Cdk

open Lib

/-- A swap between its transactions holds its inputs, which are worth its outputs. -/
structure SwapHeld (db : Db) (task : SwapTask) : Prop where
  held : ∀ y ∈ task.setup.ys, ∃ r ∈ db.proofs.rows, r.y = y ∧
    r.operation = task.setup.operation ∧ r.quoteId = none
  own : ∀ r ∈ db.proofs.rows, r.operation = task.setup.operation → r.y ∈ task.setup.ys
  funded : Amount.total (task.setup.blindedMessages.map BlindedMessage.amount) ≤
    db.opAmount task.setup.operation
  signed : ∀ signatures, task.signatures = some signatures →
    signatures.map BlindSignature.amount = task.setup.blindedMessages.map BlindedMessage.amount

/-- A melt that waits for its payment holds inputs worth what its request records. -/
structure MeltHeld (db : Db) (operationId : Uuid) (quote : MeltQuote) : Prop where
  own : ∀ r ∈ db.proofs.rows, r.operation = ⟨.melt, operationId⟩ → r.quoteId = some quote.id
  funded : ∀ row ∈ db.meltRequests.rows, row.quoteId = quote.id →
    row.inputsAmount.toNat ≤ db.opAmount ⟨.melt, operationId⟩
  pending : db.meltState quote.id = some .pending

/-- Every operation in flight holds its inputs. -/
structure Held (w : World) : Prop where
  swaps : ∀ task ∈ w.swaps, SwapHeld w.db task
  melts : ∀ task ∈ w.melts, ∀ quote, task.phase = .paying quote →
    MeltHeld w.db task.operationId quote
  quotes : ∀ task ∈ w.melts, ∀ task' ∈ w.melts, ∀ quote quote', task.phase = .paying quote →
    task'.phase = .paying quote' → quote.id = quote'.id → task.operationId = task'.operationId
  spent : ∀ r ∈ w.db.proofs.rows, r.state = .spent → ∀ i, r.quoteId = some i →
    w.db.meltState i = some .paid

section Transactions

variable {env : Env} {db db' : Db}

/-- The proofs that an operation stores are worth its inputs. -/
theorem Db.Reserved.le_opAmount {inputs : List Proof} {quoteId : Option QuoteId}
    {operation : Operation} {rows : List ProofRow}
    (h : Db.Reserved env inputs quoteId operation rows)
    (hrows : db'.proofs.rows = db.proofs.rows ++ rows) :
    Amount.total (inputs.map Proof.amount) ≤ db'.opAmount operation := by
  have hown : (rows.map fun r => if r.operation = operation then r.amount.toNat else 0) =
      (rows.map ProofRow.amount).map Amount.toNat := by
    rw [List.map_map]
    exact List.map_congr_left fun r hr => if_pos (h.pending r hr).2.2
  rw [Db.opAmount, Table.sum_of_rows _ hrows, hown, h.amounts]
  exact Nat.le_add_left _ _

/-- Settling a quote burns exactly the proofs stored for it. -/
theorem MeltSettled.burnt {quoteId : QuoteId} {spent : Amount} {change : Option PendingChange}
    {ys : List PublicKey} (h : MeltSettled env quoteId spent change ys db db')
    (hkeyed : ∀ r ∈ db.proofs.rows, env.hashToCurve (utf8 r.secret) = some r.y)
    {r : ProofRow} (hr : r ∈ db.proofs.rows) : r.y ∈ ys ↔ r.quoteId = some quoteId := by
  have hys : ys = (db.proofs.rows.filter fun r => r.quoteId = some quoteId).map ProofRow.y :=
    Db.keys_of_secrets h.keys fun r hr => hkeyed r (List.mem_filter.mp hr).1
  rw [hys]
  constructor
  · intro hy
    obtain ⟨r', hr', hkey⟩ := List.mem_map.mp hy
    obtain ⟨hmem, hq⟩ := List.mem_filter.mp hr'
    rw [← Table.eq_of_key hmem hr hkey]
    simpa using hq
  · intro hq
    exact List.mem_map_of_mem (List.mem_filter.mpr ⟨hr, by simpa using hq⟩)

theorem MeltReserved.not_settled {request : MeltRequest} {operationId : Uuid} {quote : MeltQuote}
    {rows : List ProofRow} (h : MeltReserved env request operationId quote rows db db')
    {i : QuoteId} {state : MeltQuoteState} (hi : db.meltState i = some state)
    (hstate : state = .pending ∨ state = .paid) : i ≠ request.quote := by
  rintro rfl
  rcases h.meltable with hs | hs <;> rw [hi, Option.some.injEq] at hs <;> subst hs <;>
    rcases hstate with h | h <;> cases h

end Transactions

section Steps

variable {env : Env} {backends : Backends} {w w' : World} {a : Action}

/-- The state of a quote and the requests recorded for it. -/
def MeltKept (i : QuoteId) (db db' : Db) : Prop :=
  db'.meltState i = db.meltState i ∧
    ∀ row ∈ db'.meltRequests.rows, row.quoteId = i → row ∈ db.meltRequests.rows

theorem MeltKept.of_frame {i : QuoteId} {db db' : Db} (hquotes : db'.meltQuotes = db.meltQuotes)
    (hrequests : db'.meltRequests = db.meltRequests) : MeltKept i db db' :=
  ⟨by rw [Db.meltState_congr hquotes], fun row hrow _ => hrequests ▸ hrow⟩

theorem MeltKept.trans {i : QuoteId} {db db' db'' : Db} (h : MeltKept i db db')
    (h' : MeltKept i db' db'') : MeltKept i db db'' :=
  ⟨h'.1.trans h.1, fun row hrow hi => h.2 row (h'.2 row hrow hi) hi⟩

theorem MeltReserved.meltKept {request : MeltRequest} {operationId : Uuid} {quote : MeltQuote}
    {rows : List ProofRow} {db db' : Db}
    (h : MeltReserved env request operationId quote rows db db') {i : QuoteId}
    (hne : i ≠ request.quote) : MeltKept i db db' := by
  refine ⟨by rw [h.pending, Function.update_of_ne hne], ?_⟩
  intro row hrow hi
  obtain ⟨amount, fee, -, hrows⟩ := h.requests
  rw [hrows, List.mem_append, List.mem_singleton] at hrow
  rcases hrow with hrow | rfl
  · exact hrow
  · exact absurd hi.symm hne

theorem MeltSettled.meltKept {quoteId : QuoteId} {spent : Amount} {change : Option PendingChange}
    {ys : List PublicKey} {db db' : Db} (h : MeltSettled env quoteId spent change ys db db')
    {i : QuoteId} (hne : i ≠ quoteId) : MeltKept i db db' := by
  refine ⟨by rw [h.paid, Function.update_of_ne hne], ?_⟩
  intro row hrow _
  rw [h.requests, Table.mem_delete] at hrow
  exact hrow.1

/-- A pending or a paid quote changes only by a restart or when the melt that waits for its
payment is settled. -/
theorem Move.meltKept (h : Move env w a w') {i : QuoteId} {state : MeltQuoteState}
    (hi : w.db.meltState i = some state) (hstate : state = .pending ∨ state = .paid) :
    MeltKept i w.db w'.db ∨
      (w'.melts = [] ∧ (state = .paid → w'.db.meltState i = some .paid)) ∨
      ∃ task ∈ w.melts, ∃ quote writer change, task.phase = .paying quote ∧ quote.id = i ∧
        w'.melts = w.melts.erase task ++ World.changeTask task.operationId writer change ∧
        w'.db.meltState i = some .paid := by
  cases h with
  | createMeltQuote quote t hid hrows =>
      refine .inl ⟨?_, fun row hrow _ => hrow⟩
      obtain ⟨q, hq, hqi, hqs⟩ := Db.meltState_eq_some.mp hi
      rw [hi]
      exact Db.meltState_eq_some.mpr ⟨q, by simp [World.tick, hrows, hq], hqi, hqs⟩
  | credit db' h => exact .inl (.of_frame (credits_same Db.meltQuotes (fun _ _ _ => rfl) h)
      (credits_same Db.meltRequests (fun _ _ _ => rfl) h))
  | issue quote total db' h =>
      exact .inl (.of_frame (by rw [World.tick, h.frame]) (by rw [World.tick, h.frame]))
  | setupSwap request setup rows db' hid h =>
      exact .inl (.of_frame (by rw [World.tick, h.frame]) (by rw [World.tick, h.frame]))
  | finalizeSwap task signatures stored keepSaga htask hsigned h =>
      obtain ⟨t, ht⟩ := deleteSagaUnless_frame keepSaga task.setup.operationId stored
      exact .inl (.of_frame (by rw [ht, h.frame]) (by rw [ht, h.frame]))
  | compensate task db' htask hremoved h =>
      exact .inl (.of_frame (by rw [h.frame]) (by rw [h.frame]))
  | deleteSaga task fails htask hremoved =>
      obtain ⟨t, ht⟩ := deleteSagaUnless_frame fails task.saga.operationId w.db
      exact .inl (.of_frame (by rw [World.deleteSaga, ht]) (by rw [World.deleteSaga, ht]))
  | startMelt request quote rows writer db' h hgood =>
      exact .inl (h.meltKept (h.not_settled hi hstate))
  | settleInternally request quote rows mintQuote reserved credited change ys writer db' hreserved
      hcredit hsettled hgood =>
      have hne := hreserved.not_settled hi hstate
      exact .inl ((hreserved.meltKept hne).trans ((MeltKept.of_frame (by rw [hcredit.frame])
        (by rw [hcredit.frame])).trans (hsettled.meltKept hne)))
  | settleMelt task quote spent change ys writer db' htask hphase h hgood =>
      by_cases hne : i = quote.id
      · refine .inr (.inr ⟨task, htask, quote, writer, change, hphase, hne.symm, rfl, ?_⟩)
        change db'.meltState i = _
        rw [h.paid, hne, Function.update_self]
      · exact .inl (h.meltKept hne)
  | storeChange task change signatures db' htask hphase hsign h =>
      have hquotes : db'.meltQuotes = w.db.meltQuotes := by rw [h.frame]
      refine .inl ⟨congrFun (Db.meltState_congr hquotes) i, fun row hrow _ => ?_⟩
      change row ∈ db'.meltRequests.rows at hrow
      rw [h.requests, Table.mem_delete] at hrow
      exact hrow.1
  | rollback task htask =>
      obtain ⟨t, ht⟩ := rollback_frame task.writer w.db
      exact .inl (.of_frame (by rw [World.rollback, ht]) (by rw [World.rollback, ht]))
  | restart check db' h => exact .inr (.inl ⟨rfl, fun hp => h.paid i (hp ▸ hi)⟩)
  | _ => exact .inl (.of_frame rfl rfl)

/-- A paid quote stays paid. -/
theorem Move.paid (h : Move env w a w') {i : QuoteId} (hi : w.db.meltState i = some .paid) :
    w'.db.meltState i = some .paid := by
  rcases h.meltKept hi (.inr rfl) with hk | ⟨-, hp⟩ | ⟨_, _, _, _, _, _, _, _, hp⟩
  · exact hk.1.trans hi
  · exact hp rfl
  · exact hp

/-! ## Swaps -/

/-- A step keeps what a swap in flight holds. -/
theorem Move.swapHeld (h : Move env w a w') (hst : Stored env w) (hids : OperationIds w)
    (hown : OwnProofs w a) {task : SwapTask} (htask : task ∈ w.swaps)
    (hheld : SwapHeld w.db task) : SwapHeld w'.db task := by
  have hmem : task.setup.operationId ∈ w.swaps.map fun task => task.setup.operationId :=
    List.mem_map_of_mem htask
  have hkept : OpKept task.setup.operation w.db w'.db := by
    refine h.opKept_of_own hst hown (hids.swapsOld _ (List.mem_append_left _ hmem)) ?_ ?_
    · intro other hother heq
      have hid : task.setup.operationId = other.saga.operationId := (Operation.mk.inj heq).2
      exact (List.nodup_append.mp hids.swaps).2.2 _ hmem _ (List.mem_map_of_mem hother) hid
    · intro other _ heq
      cases (Operation.mk.inj heq).1
  refine ⟨?_, ?_, ?_, hheld.signed⟩
  · intro y hy
    obtain ⟨r, hr, hkey, hop, hq⟩ := hheld.held y hy
    obtain ⟨r', hr', hkey', hop', hq'⟩ := hkept.kept r hr hop
    exact ⟨r', hr', hkey'.trans hkey, hop', hq'.trans hq⟩
  · intro r' hr' hop
    obtain ⟨r, hr, hkey, hop', -⟩ := hkept.origin r' hr' hop
    exact hkey ▸ hheld.own r hr hop'
  · rw [hkept.amount]
    exact hheld.funded

/-- A swap holds its inputs once its first transaction is committed. -/
theorem SwapReserved.held {request : SwapRequest} {setup : SwapSetup} {db db' : Db}
    {rows : List ProofRow} (h : SwapReserved env request setup db db' rows)
    (hnew : ∀ r ∈ db.proofs.rows, r.operation ≠ setup.operation) :
    SwapHeld db' ⟨setup, none⟩ := by
  refine ⟨?_, ?_, ?_, by simp⟩
  · intro y hy
    obtain ⟨r, hr, rfl⟩ := List.mem_map.mp (h.ys ▸ hy)
    obtain ⟨-, hq, hop⟩ := h.reserved.pending r hr
    exact ⟨r, by rw [h.proofs]; exact List.mem_append_right _ hr, rfl, hop, hq⟩
  · intro r hr hop
    rw [h.proofs, List.mem_append] at hr
    rcases hr with hr | hr
    · exact absurd hop (hnew r hr)
    · rw [← h.ys]
      exact List.mem_map_of_mem hr
  · change Amount.total (setup.blindedMessages.map BlindedMessage.amount) ≤ _
    rw [h.messages]
    exact h.balanced.trans (h.reserved.le_opAmount h.proofs)

theorem Move.swapsHeld (h : Move env w a w') (hst : Stored env w) (hids : OperationIds w)
    (hown : OwnProofs w a) (hheld : ∀ task ∈ w.swaps, SwapHeld w.db task) :
    ∀ task ∈ w'.swaps, SwapHeld w'.db task := by
  have hkeep : ∀ task ∈ w.swaps, SwapHeld w'.db task :=
    fun task htask => h.swapHeld hst hids hown htask (hheld task htask)
  intro task htask
  cases h with
  | setupSwap request setup rows db' hid h =>
      rcases List.mem_append.mp htask with hold | hnew
      · exact hkeep task hold
      · rw [List.mem_singleton.mp hnew]
        apply h.held
        intro r hr heq
        have hlt := hids.proofs r hr
        rw [heq, SwapSetup.operation, hid] at hlt
        exact Nat.lt_irrefl _ hlt
  | signSwap old signatures hold hsign =>
      rcases List.mem_append.mp htask with hkept | hnew
      · exact hkeep task (List.mem_of_mem_erase hkept)
      · rw [List.mem_singleton.mp hnew]
        have hbefore := hkeep old hold
        refine ⟨hbefore.held, hbefore.own, hbefore.funded, ?_⟩
        intro sigs hsigs
        rw [← Option.some.inj hsigs]
        exact hsign
  | dropSwap old _ => exact hkeep task (List.mem_of_mem_erase htask)
  | failSwap old _ => exact hkeep task (List.mem_of_mem_erase htask)
  | finalizeSwap old _ _ _ _ _ _ => exact hkeep task (List.mem_of_mem_erase htask)
  | restart _ _ _ => cases htask
  | crash _ => cases htask
  | _ => exact hkeep task htask

/-! ## Melts -/

private theorem changeTask_not_paying {operationId : Uuid} {writer : ProofWriter}
    {change : Option PendingChange} {task : MeltTask} {quote : MeltQuote}
    (h : task ∈ World.changeTask operationId writer change) : task.phase ≠ .paying quote := by
  obtain ⟨c, -, rfl⟩ := List.mem_map.mp h
  simp

/-- A step keeps what a melt in flight holds unless it settles the melt. -/
theorem Move.meltHeld (h : Move env w a w') (hst : Stored env w) (hids : OperationIds w)
    (hown : OwnProofs w a) (hw : Held w) {task : MeltTask} {quote : MeltQuote}
    (htask : task ∈ w.melts) (hafter : task ∈ w'.melts) (hphase : task.phase = .paying quote) :
    MeltHeld w'.db task.operationId quote := by
  have hheld := hw.melts task htask quote hphase
  have hmem : task.operationId ∈ w.melts.map MeltTask.operationId := List.mem_map_of_mem htask
  have hkept : OpKept ⟨.melt, task.operationId⟩ w.db w'.db := by
    refine h.opKept_of_own hst hown (hids.meltsOld _ (List.mem_append_left _ hmem)) ?_ ?_
    · intro other _ heq
      cases (Operation.mk.inj heq).1
    · intro other hother heq
      have hid : task.operationId = other.operationId := (Operation.mk.inj heq).2
      exact (List.nodup_append.mp hids.melts).2.2 _ hmem _ (List.mem_map_of_mem hother) hid
  have hmelt : MeltKept quote.id w.db w'.db := by
    rcases h.meltKept hheld.pending (.inl rfl) with hk | ⟨hnil, -⟩ |
      ⟨settled, hsettled, quote', writer, change, hphase', hid, hmelts, -⟩
    · exact hk
    · rw [hnil] at hafter
      cases hafter
    · -- the settled melt is this one, which has left the list
      exfalso
      have hop := hw.quotes settled hsettled task htask quote' quote hphase' hphase hid
      have hnd : (w.melts.map MeltTask.operationId).Nodup := (List.nodup_append.mp hids.melts).1
      have heq : settled = task := List.inj_on_of_nodup_map hnd hsettled htask hop
      rw [hmelts, heq, List.mem_append] at hafter
      rcases hafter with hafter | hafter
      · exact (List.Nodup.of_map _ hnd).not_mem_erase hafter
      · exact changeTask_not_paying hafter hphase
  refine ⟨?_, ?_, hmelt.1.trans hheld.pending⟩
  · intro r' hr' hop
    obtain ⟨r, hr, -, hop', hq⟩ := hkept.origin r' hr' hop
    exact hq ▸ hheld.own r hr hop'
  · intro row hrow hid
    rw [hkept.amount]
    exact hheld.funded row (hmelt.2 row hrow hid) hid

/-- A melt holds its inputs once its first transaction is committed. -/
theorem MeltReserved.held {request : MeltRequest} {operationId : Uuid} {quote : MeltQuote}
    {rows : List ProofRow} {db db' : Db}
    (h : MeltReserved env request operationId quote rows db db')
    (hnew : ∀ r ∈ db.proofs.rows, r.operation ≠ ⟨.melt, operationId⟩) :
    MeltHeld db' operationId quote := by
  refine ⟨?_, ?_, ?_⟩
  · intro r hr hop
    rw [h.proofs, List.mem_append] at hr
    rcases hr with hr | hr
    · exact absurd hop (hnew r hr)
    · rw [h.quoteId]
      exact (h.reserved.pending r hr).2.1
  · intro row hrow hid
    obtain ⟨amount, fee, hamount, hrows⟩ := h.requests
    have hfresh := (Table.fresh_of_append hrows).1
    rw [hrows, List.mem_append, List.mem_singleton] at hrow
    rcases hrow with hrow | rfl
    · exact absurd (by simp [hid, h.quoteId]) (hfresh row hrow)
    · rw [hamount]
      exact h.reserved.le_opAmount h.proofs
  · rw [h.pending, h.quoteId, Function.update_self]

/-- The melts that wait for a payment after a step. -/
theorem Move.paying (h : Move env w a w') {task : MeltTask} {quote : MeltQuote}
    (htask : task ∈ w'.melts) (hphase : task.phase = .paying quote) :
    task ∈ w.melts ∨ ∃ request rows, task.operationId = w.nextId ∧
      MeltReserved env request w.nextId quote rows w.db w'.db := by
  cases h with
  | startMelt request quote' rows writer db' h hgood =>
      rcases List.mem_append.mp htask with hold | hnew
      · exact .inl hold
      · rw [List.mem_singleton.mp hnew] at hphase ⊢
        cases hphase
        exact .inr ⟨request, rows, rfl, h⟩
  | settleInternally request quote rows mintQuote reserved credited change ys writer db' hreserved
      hcredit hsettled hgood =>
      rcases List.mem_append.mp htask with hold | hnew
      · exact .inl hold
      · exact absurd hphase (changeTask_not_paying hnew)
  | settleMelt old quote' spent change ys writer db' hold hphase' h hgood =>
      rcases List.mem_append.mp htask with hold | hnew
      · exact .inl (List.mem_of_mem_erase hold)
      · exact absurd hphase (changeTask_not_paying hnew)
  | endMelt old _ => exact .inl (List.mem_of_mem_erase htask)
  | releaseMelt old _ _ _ => exact .inl (List.mem_of_mem_erase htask)
  | storeChange old _ _ _ _ _ _ _ => exact .inl (List.mem_of_mem_erase htask)
  | restart _ _ _ => cases htask
  | crash _ => cases htask
  | _ => exact .inl htask

/-! ## Spent proofs -/

/-- A proof that a step spends was held by a swap or was stored for a quote that is now paid. -/
theorem Move.spentOrigin (h : Move env w a w') (hst : Stored env w) {r' : ProofRow}
    (hr' : r' ∈ w'.db.proofs.rows) (hs : r'.state = .spent) :
    r' ∈ w.db.proofs.rows ∨
      (∃ task ∈ w.swaps, ∃ r ∈ w.db.proofs.rows, r.y ∈ task.setup.ys ∧ r.quoteId = r'.quoteId) ∨
      ∃ i, r'.quoteId = some i ∧ w'.db.meltState i = some .paid := by
  have hsame : w'.db.proofs = w.db.proofs → r' ∈ w.db.proofs.rows := fun h => h ▸ hr'
  have hsettle : ∀ {quoteId : QuoteId} {spent : Amount} {change : Option PendingChange}
      {ys : List PublicKey} {db : Db}, MeltSettled env quoteId spent change ys db w'.db →
      (∀ r ∈ db.proofs.rows, env.hashToCurve (utf8 r.secret) = some r.y) →
      r' ∈ db.proofs.rows ∨ ∃ i, r'.quoteId = some i ∧ w'.db.meltState i = some .paid := by
    intro quoteId spent change ys db h hkeyed
    rw [h.proofs] at hr'
    obtain ⟨r, hr, rfl⟩ := List.mem_map.mp hr'
    by_cases hy : r.y ∈ ys
    · refine .inr ⟨quoteId, ?_, by rw [h.paid, Function.update_self]⟩
      rw [Db.setState_quoteId]
      exact (h.burnt hkeyed hr).mp hy
    · rw [Db.setState, if_neg hy]
      exact .inl hr
  cases h with
  | credit db' h => exact .inl (hsame (credits_same Db.proofs (fun _ _ _ => rfl) h))
  | issue quote total db' h => exact .inl (hsame (by rw [World.tick, h.frame]))
  | setupSwap request setup rows db' hid h =>
      change r' ∈ db'.proofs.rows at hr'
      rw [h.proofs, List.mem_append] at hr'
      rcases hr' with hr' | hr'
      · exact .inl hr'
      · rw [(h.reserved.pending r' hr').1] at hs
        cases hs
  | finalizeSwap task signatures stored keepSaga htask hsigned h =>
      obtain ⟨t, ht⟩ := deleteSagaUnless_frame keepSaga task.setup.operationId stored
      rw [ht] at hr'
      change r' ∈ stored.proofs.rows at hr'
      rw [h.proofs] at hr'
      obtain ⟨r, hr, rfl⟩ := List.mem_map.mp hr'
      by_cases hy : r.y ∈ task.setup.ys
      · exact .inr (.inl ⟨task, htask, r, hr, hy, by simp⟩)
      · rw [Db.setState, if_neg hy]
        exact .inl hr
  | compensate task db' htask hremoved h =>
      change r' ∈ db'.proofs.rows at hr'
      rw [h.proofs, Table.mem_delete] at hr'
      exact .inl hr'.1
  | deleteSaga task fails htask hremoved =>
      obtain ⟨t, ht⟩ := deleteSagaUnless_frame fails task.saga.operationId w.db
      exact .inl (hsame (by rw [World.deleteSaga, ht]))
  | startMelt request quote rows writer db' h hgood =>
      change r' ∈ db'.proofs.rows at hr'
      rw [h.proofs, List.mem_append] at hr'
      rcases hr' with hr' | hr'
      · exact .inl hr'
      · rw [(h.reserved.pending r' hr').1] at hs
        cases hs
  | settleInternally request quote rows mintQuote reserved credited change ys writer db' hreserved
      hcredit hsettled hgood =>
      have hcredited : credited.proofs = reserved.proofs := by rw [hcredit.frame]
      have hkeyed := (ProofsKept.of_reserved hreserved.reserved hreserved.proofs).keyed hst.keyed
      rcases hsettle hsettled (hcredited ▸ hkeyed) with hmid | hpaid
      · rw [hcredited, hreserved.proofs, List.mem_append] at hmid
        rcases hmid with hmid | hmid
        · exact .inl hmid
        · rw [(hreserved.reserved.pending r' hmid).1] at hs
          cases hs
      · exact .inr (.inr hpaid)
  | settleMelt task quote spent change ys writer db' htask hphase h hgood =>
      exact (hsettle h hst.keyed).imp_right .inr
  | storeChange task change signatures db' htask hphase hsign h =>
      exact .inl (hsame (by rw [h.frame]))
  | rollback task htask =>
      rcases rollback_cases (hst.rollbacks task htask) hst.settled with h | ⟨-, h⟩
      · exact .inl (hsame (by rw [World.rollback, h]))
      · rw [World.rollback, h] at hr'
        exact .inl (Table.mem_delete.mp hr').1
  | restart check db' h => exact .inl (hsame (by rw [h.frame]))
  | _ => exact .inl hr'

/-! ## Runs -/

theorem Move.held (h : Move env w a w') (hst : Stored env w) (hids : OperationIds w)
    (hown : OwnProofs w a) (hw : Held w) : Held w' := by
  have hfresh : ∀ r ∈ w.db.proofs.rows, r.operation ≠ ⟨.melt, w.nextId⟩ := by
    intro r hr heq
    have hlt := hids.proofs r hr
    rw [heq] at hlt
    exact Nat.lt_irrefl _ hlt
  refine ⟨h.swapsHeld hst hids hown hw.swaps, ?_, ?_, ?_⟩
  · intro task htask quote hphase
    rcases h.paying htask hphase with hold | ⟨request, rows, hid, hres⟩
    · exact h.meltHeld hst hids hown hw hold htask hphase
    · rw [hid]
      exact hres.held hfresh
  · -- a quote that waits for its payment cannot be reserved again
    have hclash : ∀ {task quote request quote' rows}, task ∈ w.melts →
        task.phase = .paying quote → quote.id = quote'.id →
        ¬ MeltReserved env request w.nextId quote' rows w.db w'.db := by
      intro task quote request quote' rows hold hphase hid hres
      have hpending := (hw.melts task hold quote hphase).pending
      exact hres.not_settled hpending (.inl rfl) (hid.trans hres.quoteId)
    intro task htask task' htask' quote quote' hphase hphase' hid
    rcases h.paying htask hphase with hold | ⟨request, rows, hnew, hres⟩ <;>
      rcases h.paying htask' hphase' with hold' | ⟨request', rows', hnew', hres'⟩
    · exact hw.quotes task hold task' hold' quote quote' hphase hphase' hid
    · exact absurd hres' (hclash hold hphase hid)
    · exact absurd hres (hclash hold' hphase' hid.symm)
    · exact hnew.trans hnew'.symm
  · intro r' hr' hs i hi
    rcases h.spentOrigin hst hr' hs with hold | ⟨task, htask, r, hr, hy, hq⟩ | ⟨i', hi', hpaid⟩
    · exact h.paid (hw.spent r' hold hs i hi)
    · obtain ⟨r₀, hr₀, hkey, -, hnone⟩ := (hw.swaps task htask).held r.y hy
      rw [← hq, ← Table.eq_of_key hr₀ hr hkey, hnone] at hi
      cases hi
    · rw [hi, Option.some.injEq] at hi'
      rw [hi']
      exact hpaid

/-- The invariants of a run in which only own proofs are deleted. -/
structure HeldInv (env : Env) (w : World) : Prop where
  stored : Stored env w
  ids : OperationIds w
  held : Held w

theorem Move.heldInv (h : Move env w a w') (hown : OwnProofs w a) (hw : HeldInv env w) :
    HeldInv env w' :=
  ⟨h.stored hw.stored, h.operationIds hw.stored hw.ids, h.held hw.stored hw.ids hown hw.held⟩

theorem heldInv_init (keysets : Keysets) : HeldInv env (World.init keysets) := by
  refine ⟨stored_init keysets, operationIds_init keysets, ?_⟩
  constructor <;> simp [World.init, Db.empty]

theorem heldInv_run {keysets : Keysets} {actions : List Action}
    (h : Along (World.step env backends) OwnProofs (World.init keysets) actions) :
    HeldInv env (World.reached env backends keysets actions) :=
  invariant_along (fun w a hw hown => (step_move env backends w a).heldInv hown hw)
    (heldInv_init keysets) h

end Steps

end Cdk
