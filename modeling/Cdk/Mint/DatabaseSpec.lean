import Cdk.Mint.Verification

/-!
# What the database operations do

One lemma for each operation: when it succeeds, the database it leaves and the
facts its checks have established. The proofs about transactions use these
lemmas and never unfold an operation.
-/

namespace Cdk

open Lib

namespace Db

variable {env : Env} {db db' : Db} {u : Unit}

/-! ## Proofs -/

theorem proofRow_eq_ok {quoteId : Option QuoteId} {operation : Operation} {p : Proof}
    {row : ProofRow} (h : proofRow env quoteId operation p = .ok row) :
    p.y env = some row.y ∧ row.amount = p.amount ∧ row.secret = p.secret ∧
      row.state = .unspent ∧ row.quoteId = quoteId ∧ row.operation = operation := by
  simp only [proofRow, Outcome.bind_eq_ok, Outcome.ofOption_eq_ok, Outcome.ensure_eq_ok,
    Outcome.ok.injEq] at h
  obtain ⟨y, hy, _, -, rfl⟩ := h
  exact ⟨hy, rfl, rfl, rfl, rfl, rfl⟩

theorem addProofs_ok {proofs : List Proof} {quoteId : Option QuoteId} {operation : Operation}
    (h : addProofs env proofs quoteId operation db = .ok (u, db')) :
    ∃ rows t, proofs.mapM (proofRow env quoteId operation) = .ok rows ∧
      db.proofs.insertAll? rows = some t ∧ db' = { db with proofs := t } := by
  simp only [addProofs, Tx.bind_ok, Tx.lift_ok, Tx.read_ok] at h
  obtain ⟨ys, _, ⟨-, rfl⟩, existing, _, ⟨-, rfl⟩, h⟩ := h
  cases existing with
  | some r => simp at h
  | none =>
      simp only [Tx.bind_ok, Tx.lift_ok, insertProofs, Tx.writeOr_ok, Option.map_eq_some_iff] at h
      obtain ⟨rows, _, ⟨hrows, rfl⟩, t, ht, rfl⟩ := h
      exact ⟨rows, t, hrows, ht, rfl⟩

theorem checkStateTransition_eq_ok {current new : State} {u : Unit} :
    checkStateTransition current new = .ok u ↔ current.transitionAllowed new = true := by
  unfold checkStateTransition
  split <;> simp_all

theorem updateProofsStates_ok {ys : List PublicKey} {new : State}
    {original : List (Option State)} (h : updateProofsStates ys new db = .ok (original, db')) :
    (db.proofs.rows.filter fun r => r.y ∈ ys).length = ys.length ∧
      (∀ r ∈ db.proofs.rows, r.y ∈ ys → r.state.transitionAllowed new = true) ∧
      db' = { db with proofs := db.proofs.update (setState ys new) (setState_y ys new) } := by
  simp only [updateProofsStates, Tx.bind_ok, Tx.read_ok, Tx.ensure_ok, Tx.lift_ok, Tx.write_ok,
    Tx.pure_ok, decide_eq_true_eq, Outcome.forM_eq_ok, Outcome.mapErr_eq_ok,
    checkStateTransition_eq_ok] at h
  obtain ⟨_, _, ⟨rfl, rfl⟩, _, _, ⟨hlen, rfl⟩, _, _, ⟨hall, rfl⟩, _, _, rfl, -, rfl⟩ := h
  refine ⟨hlen, ?_, rfl⟩
  intro r hr hy
  exact hall r (List.mem_filter.mpr ⟨hr, by simpa using hy⟩)

/-- The states that an update returns are the states of the listed proofs. -/
theorem updateProofsStates_original {ys : List PublicKey} {new state : State}
    {original : List (Option State)} (h : updateProofsStates ys new db = .ok (original, db'))
    (hs : some state ∈ original) : ∃ r ∈ db.proofs.rows, r.y ∈ ys ∧ r.state = state := by
  simp only [updateProofsStates, Tx.bind_ok, Tx.read_ok, Tx.ensure_ok, Tx.lift_ok, Tx.write_ok,
    Tx.pure_ok] at h
  obtain ⟨_, _, ⟨rfl, rfl⟩, _, _, ⟨-, rfl⟩, _, _, ⟨-, rfl⟩, _, _, -, rfl, -⟩ := h
  obtain ⟨y, -, hy⟩ := List.mem_map.mp hs
  obtain ⟨r, hr, rfl⟩ := Option.map_eq_some_iff.mp hy
  obtain ⟨hmem, hlisted⟩ := List.mem_filter.mp (List.mem_of_find?_eq_some hr)
  exact ⟨r, hmem, by simpa using hlisted, rfl⟩

/-- Present, pairwise different proofs whose transition is allowed can be updated. -/
theorem exists_updateProofsStates {ys : List PublicKey} {new : State} (hnd : ys.Nodup)
    (h : ∀ y ∈ ys, ∃ r ∈ db.proofs.rows, r.y = y ∧ r.state.transitionAllowed new = true) :
    ∃ original, original.length = ys.length ∧ updateProofsStates ys new db =
      .ok (original, { db with
        proofs := db.proofs.update (setState ys new) (setState_y ys new) }) := by
  have hlen : (db.proofs.rows.filter fun r => r.y ∈ ys).length = ys.length :=
    Table.length_filter_eq hnd fun y hy => (h y hy).imp fun r hr => ⟨hr.1, hr.2.1⟩
  refine ⟨ys.map fun y => ((db.proofs.rows.filter fun r => r.y ∈ ys).find? fun r =>
    r.y = y).map ProofRow.state, List.length_map _, ?_⟩
  simp only [updateProofsStates, Tx.bind_ok, Tx.read_ok, Tx.ensure_ok, Tx.lift_ok, Tx.write_ok,
    Tx.pure_ok, decide_eq_true_eq, Outcome.forM_eq_ok, Outcome.mapErr_eq_ok,
    checkStateTransition_eq_ok]
  refine ⟨_, _, ⟨rfl, rfl⟩, (), _, ⟨hlen, rfl⟩, (), _, ⟨?_, rfl⟩, (), _, rfl, rfl, rfl⟩
  intro r hr
  obtain ⟨hr, hy⟩ := List.mem_filter.mp hr
  obtain ⟨r', hr', hkey, hallowed⟩ := h r.y (by simpa using hy)
  rw [Table.eq_of_key hr hr' hkey.symm]
  exact hallowed

theorem removeProofs_ok {ys : List PublicKey} (h : removeProofs ys db = .ok (u, db')) :
    (db.proofs.rows.filter (removable ys)).length = ys.length ∧
      db' = { db with proofs := db.proofs.delete (removable ys) } := by
  rw [removeProofs, Tx.ite_ok] at h
  rcases h with ⟨rfl, h⟩ | ⟨-, h⟩
  · rw [Tx.pure_ok] at h
    obtain ⟨-, rfl⟩ := h
    have hnone : ∀ r ∈ db.proofs.rows, removable [] r = false := by simp [removable]
    exact ⟨by simpa using hnone, by rw [Table.delete_eq_self hnone]⟩
  · simp only [Tx.bind_ok, Tx.read_ok, Tx.write_ok, Tx.ensure_ok, decide_eq_true_eq] at h
    obtain ⟨_, _, ⟨rfl, rfl⟩, _, _, rfl, hlen, rfl⟩ := h
    exact ⟨hlen, rfl⟩

theorem removeProofs_of_length {ys : List PublicKey}
    (h : (db.proofs.rows.filter (removable ys)).length = ys.length) :
    removeProofs ys db = .ok ((), { db with proofs := db.proofs.delete (removable ys) }) := by
  by_cases hys : ys = []
  · subst hys
    have hnone : ∀ r ∈ db.proofs.rows, removable [] r = false := by simp [removable]
    rw [Table.delete_eq_self hnone]
    rfl
  · have hdef : removeProofs ys = (do
        let deleted ← Tx.read fun db : Db => db.proofs.rows.filter (removable ys)
        Tx.write fun db : Db => { db with proofs := db.proofs.delete (removable ys) }
        Tx.ensure (deleted.length = ys.length) .attemptRemoveSpentProof) := if_neg hys
    rw [hdef]
    simp only [Tx.bind_ok, Tx.read_ok, Tx.write_ok, Tx.ensure_ok, decide_eq_true_eq]
    exact ⟨_, _, ⟨rfl, rfl⟩, (), _, rfl, h, rfl⟩

theorem getProofYsByQuoteId_ok {quoteId : QuoteId} {ys : List PublicKey}
    (h : getProofYsByQuoteId env quoteId db = .ok (ys, db')) :
    db' = db ∧ List.Forall₂ (fun r y => env.hashToCurve (utf8 r.secret) = some y)
      (db.proofs.rows.filter fun r => r.quoteId = some quoteId) ys := by
  simp only [getProofYsByQuoteId, Tx.bind_ok, Tx.read_ok, Tx.lift_ok] at h
  obtain ⟨_, _, ⟨rfl, rfl⟩, hys, rfl⟩ := h
  refine ⟨rfl, (Outcome.forall₂_of_mapM hys).imp ?_⟩
  intro r y hy
  exact Outcome.ofOption_eq_ok.mp hy

/-- The keys recomputed from the secrets of rows are the keys of the rows. -/
theorem keys_of_secrets {rows : List ProofRow} {ys : List PublicKey}
    (h : List.Forall₂ (fun r y => env.hashToCurve (utf8 r.secret) = some y) rows ys)
    (hkeyed : ∀ r ∈ rows, env.hashToCurve (utf8 r.secret) = some r.y) :
    ys = rows.map ProofRow.y := by
  induction h with
  | nil => rfl
  | @cons r y rows ys hy _ ih =>
      rw [hkeyed r (by simp), Option.some.injEq] at hy
      rw [List.map_cons, hy, ← ih fun r hr => hkeyed r (by simp [hr])]

/-- Rows keyed by their proofs have the keys of the proofs. -/
theorem ys_of_forall₂ {R : Proof → ProofRow → Prop} {inputs : List Proof}
    {rows : List ProofRow} {ys : List PublicKey} (h : List.Forall₂ R inputs rows)
    (hR : ∀ p r, R p r → p.y env = some r.y) (hys : ysOf env inputs = .ok ys) :
    rows.map ProofRow.y = ys := by
  induction h generalizing ys with
  | nil =>
      rw [ysOf, List.mapM_nil, Outcome.pure_eq, Outcome.ok.injEq] at hys
      exact hys
  | @cons p r ps rs hr _ ih =>
      simp only [ysOf, List.mapM_cons, Outcome.bind_eq_ok, Outcome.ofOption_eq_ok, Outcome.pure_eq,
        Outcome.ok.injEq] at hys
      obtain ⟨y, hy, ys', hys', rfl⟩ := hys
      rw [hR p r hr, Option.some.injEq] at hy
      rw [List.map_cons, ih hys', hy]

/-- Rows that an operation has inserted and marked pending, one for each input. -/
structure Reserved (env : Env) (inputs : List Proof) (quoteId : Option QuoteId)
    (operation : Operation) (rows : List ProofRow) : Prop where
  inputs : List.Forall₂ (fun p r => p.y env = some r.y ∧ r.amount = p.amount ∧
    r.secret = p.secret) inputs rows
  pending : ∀ r ∈ rows, r.state = .pending ∧ r.quoteId = quoteId ∧ r.operation = operation

theorem Reserved.keyed {inputs : List Proof} {quoteId : Option QuoteId} {operation : Operation}
    {rows : List ProofRow} (h : Reserved env inputs quoteId operation rows) :
    ∀ r ∈ rows, env.hashToCurve (utf8 r.secret) = some r.y := by
  have hall := h.inputs
  clear h
  induction hall with
  | nil => simp
  | cons hr _ ih =>
      intro r' hr'
      rcases List.mem_cons.mp hr' with rfl | hr'
      · rw [hr.2.2]
        exact hr.1
      · exact ih r' hr'

theorem Reserved.amounts {inputs : List Proof} {quoteId : Option QuoteId}
    {operation : Operation} {rows : List ProofRow}
    (h : Reserved env inputs quoteId operation rows) :
    rows.map ProofRow.amount = inputs.map Proof.amount := by
  have hall := h.inputs
  clear h
  induction hall with
  | nil => rfl
  | cons hr _ ih => rw [List.map_cons, List.map_cons, hr.2.1, ih]

/-- The rows of the table keep their state unless their key is listed. -/
theorem map_setState_eq_self {rows : List ProofRow} {ys : List PublicKey} {new : State}
    (h : ∀ r ∈ rows, r.y ∉ ys) : rows.map (setState ys new) = rows := by
  have hid : ∀ r ∈ rows, setState ys new r = r := fun r hr => if_neg (h r hr)
  rw [List.map_congr_left hid, List.map_id']

/-- Adding proofs and marking them pending appends pending rows and touches nothing else. -/
theorem reserve_ok {inputs : List Proof} {quoteId : Option QuoteId} {operation : Operation}
    {ys : List PublicKey} {original : List (Option State)} {mid : Db}
    (hadd : addProofs env inputs quoteId operation db = .ok (u, mid))
    (hys : ysOf env inputs = .ok ys)
    (hupd : updateProofsStates ys .pending mid = .ok (original, db')) :
    ∃ rows t, Reserved env inputs quoteId operation rows ∧ rows.map ProofRow.y = ys ∧
      t.rows = db.proofs.rows ++ rows ∧ db' = { db with proofs := t } := by
  obtain ⟨rows, t, hrows, hins, rfl⟩ := addProofs_ok hadd
  obtain ⟨-, -, rfl⟩ := updateProofsStates_ok hupd
  have hkeys : rows.map ProofRow.y = ys :=
    ys_of_forall₂ (Outcome.forall₂_of_mapM hrows) (fun p r hr => (proofRow_eq_ok hr).1) hys
  have hmem : ∀ r ∈ rows, r.y ∈ ys := fun r hr => hkeys ▸ List.mem_map_of_mem hr
  have hold : ∀ r ∈ db.proofs.rows, r.y ∉ ys := by
    intro r hr hy
    obtain ⟨r', hr', hk⟩ := List.mem_map.mp (hkeys ▸ hy)
    exact (Table.insertAll?_fresh hins).1 r' hr' r hr hk.symm
  refine ⟨rows.map (setState ys .pending), _, ⟨?_, ?_⟩, ?_, ?_, rfl⟩
  · rw [List.forall₂_map_right_iff]
    apply (Outcome.forall₂_of_mapM hrows).imp
    intro p r hr
    obtain ⟨hy, hamount, hsecret, -⟩ := proofRow_eq_ok hr
    simp [hy, hamount, hsecret]
  · intro r' hr'
    obtain ⟨r, hr, rfl⟩ := List.mem_map.mp hr'
    obtain ⟨p, -, hp⟩ := Outcome.exists_of_mem_mapM hrows hr
    obtain ⟨-, -, -, -, hquote, hop⟩ := proofRow_eq_ok hp
    simp [setState_state, hmem r hr, hquote, hop]
  · rw [List.map_map, show ProofRow.y ∘ setState ys .pending = ProofRow.y from
      funext (setState_y ys .pending), hkeys]
  · rw [Table.update_rows, Table.insertAll?_rows hins, List.map_append, map_setState_eq_self hold]

/-! ## Blinded messages and signatures -/

theorem messageRow_eq_ok {quoteId : Option QuoteId} {operation : Operation} {m : BlindedMessage}
    {row : SignatureRow} (h : messageRow quoteId operation m = .ok row) :
    row = ⟨m.blindedSecret, m.amount, m.keysetId, none, quoteId, some operation⟩ := by
  simp only [messageRow, Outcome.bind_eq_ok, Outcome.ensure_eq_ok, Outcome.ok.injEq] at h
  obtain ⟨_, -, rfl⟩ := h
  rfl

/-- The rows that reserve a list of messages for an operation. -/
def messageRows (quoteId : Option QuoteId) (operation : Operation)
    (messages : List BlindedMessage) : List SignatureRow :=
  messages.map fun m => ⟨m.blindedSecret, m.amount, m.keysetId, none, quoteId, some operation⟩

theorem addBlindedMessages_ok {quoteId : Option QuoteId} {messages : List BlindedMessage}
    {operation : Operation} (h : addBlindedMessages quoteId messages operation db = .ok (u, db')) :
    ∃ t, db.blindSignatures.insertAll? (messageRows quoteId operation messages) = some t ∧
      db' = { db with blindSignatures := t } := by
  simp only [addBlindedMessages, Tx.bind_ok, Tx.lift_ok, insertMessages, Tx.writeOr_ok,
    Option.map_eq_some_iff] at h
  obtain ⟨rows, _, ⟨hrows, rfl⟩, t, ht, rfl⟩ := h
  have heq : rows = messageRows quoteId operation messages := by
    have hall := Outcome.forall₂_of_mapM hrows
    clear hrows ht
    induction hall with
    | nil => rfl
    | cons hm _ ih => rw [messageRows, List.map_cons, messageRow_eq_ok hm, ih, messageRows]
  exact ⟨t, heq ▸ ht, rfl⟩

theorem deleteBlindedMessages_ok {secrets : List PublicKey} :
    deleteBlindedMessages secrets db = .ok (u, db') ↔
      db' = { db with blindSignatures := db.blindSignatures.delete (unsigned secrets) } := by
  by_cases hs : secrets = []
  · subst hs
    have hnone : ∀ r ∈ db.blindSignatures.rows, unsigned [] r = false := by simp [unsigned]
    rw [Table.delete_eq_self hnone, deleteBlindedMessages, if_pos rfl, Tx.pure_ok]
    exact ⟨fun h => h.2.symm, fun h => ⟨rfl, h.symm⟩⟩
  · rw [deleteBlindedMessages, if_neg hs, Tx.write_ok]
    exact eq_comm

/-- One signature is added to an absent or to an unsigned message. -/
theorem addBlindSignature_ok {quoteId : Option QuoteId} {entry : PublicKey × BlindSignature}
    (h : addBlindSignature quoteId entry db = .ok (u, db')) :
    (∃ t, (∀ r ∈ db.blindSignatures.rows, r.blindedMessage ≠ entry.1) ∧
        t.rows = db.blindSignatures.rows ++
          [⟨entry.1, entry.2.amount, entry.2.keysetId, some entry.2.c, quoteId, none⟩] ∧
        db' = { db with blindSignatures := t }) ∨
      (∃ r ∈ db.blindSignatures.rows, r.blindedMessage = entry.1 ∧ r.c = none ∧
        db' = { db with
          blindSignatures :=
            db.blindSignatures.update (signRow entry.1 entry.2) (signRow_key entry.1 entry.2) }) := by
  simp only [addBlindSignature, Tx.bind_ok, Tx.read_ok] at h
  obtain ⟨existing, _, ⟨hfind, rfl⟩, h⟩ := h
  cases existing with
  | none =>
      simp only [insertMessages, Tx.writeOr_ok, Option.map_eq_some_iff] at h
      obtain ⟨t, ht, rfl⟩ := h
      exact .inl ⟨t, Table.find?_eq_none.mp hfind, Table.insertAll?_rows ht, rfl⟩
  | some r =>
      obtain ⟨hr, hkey⟩ := Table.find?_eq_some.mp hfind
      simp only [Tx.ite_ok, Tx.write_ok, Tx.fail_ok, and_false, or_false] at h
      obtain ⟨hc, rfl⟩ := h
      exact .inr ⟨r, hr, hkey, hc, rfl⟩

theorem addBlindSignatures_ok {messages : List PublicKey} {signatures : List BlindSignature}
    {quoteId : Option QuoteId}
    (h : addBlindSignatures messages signatures quoteId db = .ok (u, db')) :
    messages.length = signatures.length ∧
      (messages.zip signatures).forM (addBlindSignature quoteId) db = .ok (u, db') := by
  simp only [addBlindSignatures, Tx.bind_ok, Tx.ensure_ok, decide_eq_true_eq] at h
  obtain ⟨_, _, ⟨hlen, rfl⟩, h⟩ := h
  exact ⟨hlen, h⟩

/-- Present, unsigned, pairwise different messages can be signed. -/
theorem exists_addBlindSignatures {messages : List PublicKey} {signatures : List BlindSignature}
    (quoteId : Option QuoteId) (hlen : messages.length = signatures.length) (hnd : messages.Nodup)
    (h : ∀ m ∈ messages, ∃ r ∈ db.blindSignatures.rows, r.blindedMessage = m ∧ r.c = none) :
    ∃ db', addBlindSignatures messages signatures quoteId db = .ok ((), db') := by
  have hloop : ∃ db', (messages.zip signatures).forM (addBlindSignature quoteId) db =
      .ok ((), db') := by
    induction messages generalizing db signatures with
    | nil => exact ⟨db, rfl⟩
    | cons message messages ih =>
        obtain _ | ⟨sig, sigs⟩ := signatures
        · simp at hlen
        rw [List.nodup_cons] at hnd
        obtain ⟨r, hr, hkey, hc⟩ := h message (by simp)
        let mid : Db := { db with
          blindSignatures :=
            db.blindSignatures.update (signRow message sig) (signRow_key message sig) }
        have hone : addBlindSignature quoteId (message, sig) db = .ok ((), mid) := by
          simp only [addBlindSignature, Tx.bind_ok, Tx.read_ok]
          exact ⟨some r, db, ⟨Table.find?_eq_some.mpr ⟨hr, hkey⟩, rfl⟩, by simp [hc, mid]⟩
        have hleft : ∀ m ∈ messages, ∃ r ∈ mid.blindSignatures.rows,
            r.blindedMessage = m ∧ r.c = none := by
          intro m hm
          obtain ⟨r', hr', hkey', hc'⟩ := h m (by simp [hm])
          have hne : r'.blindedMessage ≠ message := by
            rintro heq
            exact hnd.1 (by rw [← heq, hkey']; exact hm)
          exact ⟨r', List.mem_map.mpr ⟨r', hr', if_neg hne⟩, hkey', hc'⟩
        obtain ⟨db', hrest⟩ := ih (by simpa using hlen) hnd.2 hleft
        refine ⟨db', ?_⟩
        change (addBlindSignature quoteId (message, sig) >>= fun _ =>
          (messages.zip sigs).forM (addBlindSignature quoteId)) db = .ok ((), db')
        rw [Tx.bind_ok]
        exact ⟨(), _, hone, hrest⟩
  obtain ⟨db', hloop⟩ := hloop
  refine ⟨db', ?_⟩
  simp only [addBlindSignatures, Tx.bind_ok, Tx.ensure_ok, decide_eq_true_eq]
  exact ⟨(), db, ⟨hlen, rfl⟩, hloop⟩

/-- Signing touches the signature table only. -/
theorem addBlindSignatures_frame {messages : List PublicKey} {signatures : List BlindSignature}
    {quoteId : Option QuoteId}
    (h : addBlindSignatures messages signatures quoteId db = .ok (u, db')) :
    ∃ t, db' = { db with blindSignatures := t } := by
  refine Tx.forM_preserves (P := fun d : Db => ∃ t, d = { db with blindSignatures := t }) ?_
    ⟨db.blindSignatures, rfl⟩ (addBlindSignatures_ok h).2
  rintro entry _ d' ⟨t, rfl⟩ hstep
  rcases addBlindSignature_ok hstep with ⟨t', -, -, rfl⟩ | ⟨r, -, -, -, rfl⟩
  · exact ⟨t', rfl⟩
  · exact ⟨_, rfl⟩

/-- The amount of a row that is signed and whose quote satisfies a predicate. -/
def signedFor (p : Option QuoteId → Bool) (r : SignatureRow) : Nat :=
  if r.c.isSome && p r.quoteId then r.amount.toNat else 0

theorem signedFor_unsigned {p : Option QuoteId → Bool} {r : SignatureRow} (h : r.c = none) :
    signedFor p r = 0 := by
  simp [signedFor, h]

private theorem sum_signRow {t : Table SignatureRow.blindedMessage} (p : Option QuoteId → Bool)
    {r : SignatureRow} {message : PublicKey} (sig : BlindSignature) (hr : r ∈ t.rows)
    (hkey : r.blindedMessage = message) (hc : r.c = none) :
    (t.update (signRow message sig) (signRow_key message sig)).sum (signedFor p) =
      t.sum (signedFor p) + if p r.quoteId then sig.amount.toNat else 0 := by
  refine Table.sum_update_row hr ?_ ?_
  · simp [signedFor, signRow, hkey, hc]
  · intro r' _ hk
    rw [signRow, if_neg (hkey ▸ hk)]

/-- Signing messages whose quotes agree on a predicate adds the signed amounts to its total. -/
theorem addBlindSignatures_sum {messages : List PublicKey} {signatures : List BlindSignature}
    {quoteId : Option QuoteId} {p : Option QuoteId → Bool} {b : Bool}
    (h : addBlindSignatures messages signatures quoteId db = .ok (u, db'))
    (hnew : p quoteId = b)
    (hold : ∀ r ∈ db.blindSignatures.rows, r.blindedMessage ∈ messages → r.c = none →
      p r.quoteId = b) :
    db'.blindSignatures.sum (signedFor p) = db.blindSignatures.sum (signedFor p) +
      if b then Amount.total (signatures.map BlindSignature.amount) else 0 := by
  obtain ⟨hlen, hloop⟩ := addBlindSignatures_ok h
  clear h
  induction messages generalizing db signatures with
  | nil =>
      have hsig : signatures = [] := List.length_eq_zero_iff.mp hlen.symm
      subst hsig
      have hdb : (pure () : DbTx Unit) db = .ok (u, db') := hloop
      rw [Tx.pure_ok] at hdb
      simp [hdb.2]
  | cons message messages ih =>
      obtain _ | ⟨sig, sigs⟩ := signatures
      · simp at hlen
      have hbind : (addBlindSignature quoteId (message, sig) >>= fun _ =>
          (messages.zip sigs).forM (addBlindSignature quoteId)) db = .ok (u, db') := hloop
      rw [Tx.bind_ok] at hbind
      obtain ⟨_, mid, hone, hrest⟩ := hbind
      have hlen' : messages.length = sigs.length := by simpa using hlen
      rcases addBlindSignature_ok hone with ⟨t, -, hrows, rfl⟩ | ⟨r, hr, hkey, hc, rfl⟩
      · -- an absent message is inserted signed
        have hstep : t.sum (signedFor p) = db.blindSignatures.sum (signedFor p) +
            if b then sig.amount.toNat else 0 := by
          rw [Table.sum_of_rows _ hrows]
          simp [signedFor, hnew]
        rw [ih (by
          intro r' hr' hmem hc'
          rw [hrows, List.mem_append, List.mem_singleton] at hr'
          rcases hr' with hr' | rfl
          · exact hold r' hr' (by simp [hmem]) hc'
          · cases hc') hlen' hrest, hstep]
        cases b <;> simp [Nat.add_assoc]
      · -- an unsigned message is signed in place
        have hp : p r.quoteId = b := hold r hr (by simp [hkey]) hc
        have hstep := sum_signRow p sig hr hkey hc
        rw [hp] at hstep
        rw [ih (by
          intro r' hr' hmem hc'
          rw [Table.update_rows] at hr'
          obtain ⟨r₀, hr₀, rfl⟩ := List.mem_map.mp hr'
          by_cases hk : r₀.blindedMessage = message
          · simp [signRow, hk] at hc'
          · simp only [signRow, hk, if_false] at hmem hc' ⊢
            exact hold r₀ hr₀ (by simp [hmem]) hc') hlen' hrest, hstep]
        cases b <;> simp [Nat.add_assoc]

/-! ## Quotes, melt requests and sagas -/

theorem incrementMintQuoteAmountPaid_ok {quoteId : QuoteId} {amount paid : Amount}
    {paymentId : String}
    (h : incrementMintQuoteAmountPaid quoteId amount paymentId db = .ok (paid, db')) :
    ∃ t, t.rows = db.payments.rows ++ [⟨quoteId, paymentId, amount⟩] ∧
      (∀ q ∈ db.mintQuotes.rows, q.id = quoteId → paid.toNat = q.amountPaid.toNat + amount.toNat) ∧
      db' = { db with
        mintQuotes := db.mintQuotes.update (setPaid quoteId paid) (setPaid_id quoteId paid)
        payments := t } := by
  simp only [incrementMintQuoteAmountPaid, Tx.bind_ok, Tx.ensure_ok, Tx.read_ok, Tx.lift_ok,
    Tx.write_ok, Tx.pure_ok, insertPayment, Tx.writeOr_ok, Option.map_eq_some_iff,
    Outcome.ofOption_eq_ok, Amount.checkedAdd_eq_some] at h
  obtain ⟨_, _, ⟨-, rfl⟩, _, _, ⟨-, rfl⟩, _, _, ⟨-, rfl⟩, current, _, ⟨hcur, rfl⟩, paid', _,
    ⟨hpaid, rfl⟩, _, _, ⟨-, rfl⟩, _, _, rfl, _, _, ⟨-, rfl⟩, _, _, ⟨t, ht, rfl⟩, rfl, rfl⟩ := h
  refine ⟨t, (Table.insert?_eq_some.mp ht).2, ?_, rfl⟩
  intro q hq hid
  have hfind : db.mintQuotes.find? quoteId = some q := Table.find?_eq_some.mpr ⟨hq, hid⟩
  rw [hpaid, ← hcur, hfind]
  rfl

theorem incrementMintQuoteAmountIssued_ok {quoteId : QuoteId} {amount issued : Amount}
    (h : incrementMintQuoteAmountIssued quoteId amount db = .ok (issued, db')) :
    ∃ q ∈ db.mintQuotes.rows, q.id = quoteId ∧
      issued.toNat = q.amountIssued.toNat + amount.toNat ∧
      issued.toNat ≤ q.amountPaid.toNat ∧
      db' = { db with
        mintQuotes := db.mintQuotes.update (setIssued quoteId issued) (setIssued_id quoteId issued)
        issued := db.issued ++ [⟨quoteId, amount⟩] } := by
  simp only [incrementMintQuoteAmountIssued, Tx.bind_ok, Tx.ensure_ok, Tx.read_ok, Tx.lift_ok,
    Tx.write_ok, Tx.pure_ok, Outcome.ofOption_eq_ok, Amount.checkedAdd_eq_some,
    decide_eq_true_eq] at h
  obtain ⟨_, _, ⟨hfind, rfl⟩, q, _, ⟨rfl, rfl⟩, issued', _, ⟨hadd, rfl⟩, _, _, ⟨hle, rfl⟩, _, _,
    ⟨-, rfl⟩, _, _, rfl, rfl, rfl⟩ := h
  obtain ⟨hq, hid⟩ := Table.find?_eq_some.mp hfind
  exact ⟨q, hq, hid, hadd, hle, rfl⟩

theorem addMintQuote_ok {quote : MintQuote} (h : addMintQuote quote db = .ok (u, db')) :
    ∃ t q, (∀ q' ∈ db.mintQuotes.rows, q'.id ≠ quote.id) ∧ q.id = quote.id ∧
      q.amountPaid = .zero ∧ q.amountIssued = .zero ∧
      t.rows = db.mintQuotes.rows ++ [q] ∧ db' = { db with mintQuotes := t } := by
  simp only [addMintQuote, Tx.bind_ok, Tx.read_ok, Tx.ensure_ok, Tx.writeOr_ok,
    Option.map_eq_some_iff] at h
  obtain ⟨_, _, ⟨-, rfl⟩, _, _, ⟨-, rfl⟩, t, ht, rfl⟩ := h
  obtain ⟨hfresh, hrows⟩ := Table.insert?_eq_some.mp ht
  refine ⟨t, _, hfresh, ?_, ?_, ?_, hrows, rfl⟩
  · rfl
  · rfl
  · rfl

theorem addMeltQuote_ok {quote : MeltQuote} (h : addMeltQuote quote db = .ok (u, db')) :
    ∃ t, t.rows = db.meltQuotes.rows ++ [quote] ∧ db' = { db with meltQuotes := t } := by
  simp only [addMeltQuote, Tx.bind_ok, Tx.read_ok, Tx.ensure_ok, Tx.writeOr_ok,
    Option.map_eq_some_iff] at h
  obtain ⟨_, _, ⟨-, rfl⟩, _, _, ⟨-, rfl⟩, _, _, ⟨-, rfl⟩, t, ht, rfl⟩ := h
  exact ⟨t, (Table.insert?_eq_some.mp ht).2, rfl⟩

theorem addMeltRequest_ok {quoteId : QuoteId} {inputsAmount inputsFee : Amount}
    (h : addMeltRequest quoteId inputsAmount inputsFee db = .ok (u, db')) :
    ∃ t, (∀ r ∈ db.meltRequests.rows, r.quoteId ≠ quoteId) ∧
      t.rows = db.meltRequests.rows ++ [⟨quoteId, inputsAmount, inputsFee⟩] ∧
      db' = { db with meltRequests := t } := by
  simp only [addMeltRequest, Tx.bind_ok, Tx.ensure_ok, Tx.writeOr_ok,
    Option.map_eq_some_iff] at h
  obtain ⟨_, _, ⟨-, rfl⟩, t, ht, rfl⟩ := h
  obtain ⟨hfresh, hrows⟩ := Table.insert?_eq_some.mp ht
  exact ⟨t, hfresh, hrows, rfl⟩

theorem checkMeltQuoteStateTransition_eq_ok {current new : MeltQuoteState} :
    checkMeltQuoteStateTransition current new = .ok u ↔
      current.transitionAllowed new = true := by
  unfold checkMeltQuoteStateTransition
  split <;> simp_all

/-- The database after a melt quote has changed its state. -/
def withMeltState (quoteId : QuoteId) (state : MeltQuoteState) (db : Db) : Db :=
  { db with
    meltQuotes :=
      db.meltQuotes.update (setMeltState quoteId state) (setMeltState_id quoteId state) }

theorem updateMeltQuoteState_ok {quoteId : QuoteId} {state : MeltQuoteState}
    {result : MeltQuoteState × MeltQuote}
    (h : updateMeltQuoteState quoteId state db = .ok (result, db')) :
    ∃ q ∈ db.meltQuotes.rows, q.id = quoteId ∧ q.state.transitionAllowed state = true ∧
      result = (q.state, { q with state := state }) ∧
      db' = if state = .unpaid ∨ state = .failed then
          withoutMeltRequest quoteId (withMeltState quoteId state db)
        else withMeltState quoteId state db := by
  simp only [updateMeltQuoteState, Tx.bind_ok, Tx.read_ok, Tx.lift_ok, Tx.write_ok, Tx.pure_ok,
    Outcome.ofOption_eq_ok, Outcome.mapErr_eq_ok, checkMeltQuoteStateTransition_eq_ok,
    Tx.ite_ok, deleteMeltRequest] at h
  obtain ⟨found, _, ⟨hfound, rfl⟩, q, _, ⟨rfl, rfl⟩, _, _, ⟨hallowed, rfl⟩, _, _, rfl, h⟩ := h
  obtain ⟨hfind, -⟩ := Option.filter_eq_some_iff.mp hfound
  obtain ⟨hq, hid⟩ := Table.find?_eq_some.mp hfind
  refine ⟨q, hq, hid, hallowed, ?_⟩
  rcases h with ⟨hs, _, _, rfl, rfl, rfl⟩ | ⟨hs, rfl, rfl⟩
  · rw [if_pos hs]
    exact ⟨rfl, rfl⟩
  · rw [if_neg hs]
    exact ⟨rfl, rfl⟩

/-- A stored quote whose transition is allowed can change its state. -/
theorem exists_updateMeltQuoteState {quoteId : QuoteId} (state : MeltQuoteState) {q : MeltQuote}
    (hq : q ∈ db.meltQuotes.rows) (hid : q.id = quoteId) (hne : q.state ≠ state)
    (hallowed : q.state.transitionAllowed state = true) :
    ∃ r, updateMeltQuoteState quoteId state db = .ok r := by
  have hfind : (db.meltQuotes.find? quoteId).filter (fun q => q.state ≠ state) = some q := by
    rw [Table.find?_eq_some.mpr ⟨hq, hid⟩]
    simp [Option.filter, hne]
  have hcheck : (checkMeltQuoteStateTransition q.state state).mapErr DbError.ofState = .ok () :=
    Outcome.mapErr_eq_ok.mpr (checkMeltQuoteStateTransition_eq_ok.mpr hallowed)
  unfold updateMeltQuoteState
  rw [Tx.bind_of_ok (show Tx.read _ db = .ok (some q, db) by rw [Tx.read_ok]; exact ⟨hfind, rfl⟩),
    Tx.bind_of_ok (show Tx.lift _ db = .ok (q, db) by rw [Tx.lift_ok]; exact ⟨rfl, rfl⟩),
    Tx.bind_of_ok (show Tx.lift _ db = .ok ((), db) by rw [Tx.lift_ok]; exact ⟨hcheck, rfl⟩)]
  split <;> exact ⟨_, rfl⟩

theorem addSaga_ok {saga : Saga} (h : addSaga saga db = .ok (u, db')) :
    ∃ t, (∀ s ∈ db.sagas.rows, s.operationId ≠ saga.operationId) ∧
      t.rows = db.sagas.rows ++ [saga] ∧ db' = { db with sagas := t } := by
  simp only [addSaga, Tx.writeOr_ok, Option.map_eq_some_iff] at h
  obtain ⟨t, ht, rfl⟩ := h
  obtain ⟨hfresh, hrows⟩ := Table.insert?_eq_some.mp ht
  exact ⟨t, hfresh, hrows, rfl⟩

end Db

end Cdk
