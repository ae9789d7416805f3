import Cdk.Wallet.SqlStore
import Mathlib.Data.List.Perm.Subperm

/-!
# The history of a wallet

Every send, receive, mint and melt writes a transaction, whose id is made of the
points of the proofs that it names. A receive names the proofs that came in, a
melt the proofs that were paid with, and reclaiming proofs removes the
transaction of their points. So the history keeps an operation until the points
of its proofs pass through the wallet once more.
-/

namespace Cdk

open Lib Std

namespace SqlWallet

/-! ## What the operations record -/

/-- The successful operations, with the data of their transactions. -/
inductive Operation where
  | send (amount totalSendFee : Amount) (proofsToSend : List PublicKey) (memo : Option String)
      (metadata : ExtTreeMap String String)
  | receive (proofsAmount totalAmount : Amount) (proofsYs : List PublicKey)
      (memo : Option String) (metadata : ExtTreeMap String String)
  | mint (totalAmount : Amount) (proofs : List PublicKey) (quoteId request : String)
  | melt (amount feePaid : Amount) (proofs : List PublicKey)
      (metadata : ExtTreeMap String String) (quoteId request : String)
      (paymentPreimage : Option String)

/-- A change of the history by a wallet. -/
inductive HistoryStep where
  | record (operation : Operation) (unixTime : Nat)
  /-- `Wallet::reclaim_unspent`, which a melt that failed and `revert_transaction` end with. -/
  | reclaim (proofYs : List PublicKey)

section History

variable (env : RowEnv) (mintUrl : String) (unit : CurrencyUnit)

/-- The transaction that an operation adds. The subtraction of a receive does not panic where it
succeeds. -/
def Operation.transaction (unixTime : Nat) : Operation → Transaction
  | .send amount totalSendFee proofsToSend memo metadata =>
      ⟨mintUrl, .outgoing, amount, totalSendFee, unit, proofsToSend, unixTime, memo, metadata,
        none, none, none⟩
  | .receive proofsAmount totalAmount proofsYs memo metadata =>
      ⟨mintUrl, .incoming, totalAmount,
        ⟨proofsAmount.toNat - totalAmount.toNat, (Nat.sub_le _ _).trans_lt proofsAmount.isLt⟩,
        unit, proofsYs, unixTime, memo, metadata, none, none, none⟩
  | .mint totalAmount proofs quoteId request =>
      ⟨mintUrl, .incoming, totalAmount, .zero, unit, proofs, unixTime, none, ∅, some quoteId,
        some request, none⟩
  | .melt amount feePaid proofs metadata quoteId request paymentPreimage =>
      ⟨mintUrl, .outgoing, amount, feePaid, unit, proofs, unixTime, none, metadata, some quoteId,
        some request, paymentPreimage⟩

/-- The transaction of a step that records an operation. -/
def HistoryStep.transaction : HistoryStep → Option Transaction
  | .record operation unixTime => some (operation.transaction mintUrl unit unixTime)
  | .reclaim _ => none

def HistoryStep.apply (db : Db) : HistoryStep → Db
  | .record operation unixTime =>
      db.addTransaction env (operation.transaction mintUrl unit unixTime)
  | .reclaim proofYs => db.removeTransaction (transactionId env proofYs)

/-- The store after a run of a new wallet. -/
def history (steps : List HistoryStep) : Db :=
  steps.foldl (HistoryStep.apply env mintUrl unit) Db.empty

/-- The transactions of all operations of a run. -/
def recorded (steps : List HistoryStep) : List Transaction :=
  steps.filterMap (HistoryStep.transaction mintUrl unit)

/-- `Wallet::list_transactions`, which sorts them. -/
def listed (steps : List HistoryStep) : List Transaction :=
  (history env mintUrl unit steps).listTransactions env ⟨some mintUrl, none, some unit⟩

/-- For each operation of the run there is a record of its own among those that are listed. -/
def HistoryKept (steps : List HistoryStep) : Prop :=
  (recorded mintUrl unit steps).Subperm (listed env mintUrl unit steps)

/-- The transaction id that a step writes or removes. -/
def HistoryStep.id : HistoryStep → BitVec 256
  | .record operation unixTime => (operation.transaction mintUrl unit unixTime).id env
  | .reclaim proofYs => transactionId env proofYs

/-- After an operation no step comes to the id of its proofs again. -/
def Apart (steps : List HistoryStep) : Prop :=
  steps.Pairwise fun earlier later =>
    (earlier.transaction mintUrl unit).isSome = true →
      earlier.id env mintUrl unit ≠ later.id env mintUrl unit

/-- The columns of the table keep a transaction. -/
structure Transaction.Fits (transaction : Transaction) : Prop where
  amount : transaction.amount.toNat < 2 ^ 63
  fee : transaction.fee.toNat < 2 ^ 63
  timestamp : transaction.timestamp < 2 ^ 63
  mintUrl : env.NormalUrl transaction.mintUrl
  unit : transaction.unit.Canonical env.casing

/-- What the libraries read as they wrote it. -/
structure Transaction.Written (transaction : Transaction) : Prop where
  ys : ∀ y ∈ transaction.ys, env.ReadsPublicKey y
  metadata : env.metadata.RoundTrips transaction.metadata

end History

/-! ## Reading transactions -/

section Rows

variable {env : RowEnv}

theorem lt_of_u64TryFrom {n : Nat} (h : u64TryFrom (asI64 n) = some n) : n < 2 ^ 63 := by
  rw [u64TryFrom, Option.ite_none_right_eq_some] at h
  have hlt : asI64 n < 2 ^ 63 := BitVec.toInt_lt
  have heq := Option.some.inj h.2
  omega

theorem columnAsU64_lt {n : Nat} {column : String}
    (h : columnAsU64 column (.integer (asI64 n)) = .ok n) : n < 2 ^ 63 :=
  lt_of_u64TryFrom (Outcome.ofOption_eq_ok.mp h)

theorem columnAsAmount_lt {a : Amount} {column : String}
    (h : columnAsAmount column (.integer (asI64 a.toNat)) = .ok a) : a.toNat < 2 ^ 63 := by
  have hsome := Outcome.ofOption_eq_ok.mp h
  rw [amountFromI64, Option.bind_eq_some_iff] at hsome
  obtain ⟨n, hn, ha⟩ := hsome
  have hlt := Option.dite_none_right_eq_some.mp ha
  obtain ⟨_, heq⟩ := hlt
  cases heq
  exact lt_of_u64TryFrom hn

theorem mintUrlColumn_text_iff {url : String} :
    env.mintUrlColumn (.text url) = .ok url ↔ env.NormalUrl url := by
  rw [RowEnv.NormalUrl, RowEnv.mintUrlColumn, RowEnv.columnAsWith, columnAsParsed,
    Outcome.ofOption_eq_ok]

theorem unitColumn_text_iff {unit : CurrencyUnit} :
    env.unitColumn (.text (unit.toText env.casing)) = .ok unit ↔ unit.Canonical env.casing := by
  rw [CurrencyUnit.Canonical, RowEnv.unitColumn, RowEnv.columnAsWith, columnAsParsed,
    Outcome.ofOption_eq_ok, Option.some.injEq]

/-- What is read of the columns of a transaction. -/
structure ReadFrom (env : RowEnv) (row : TransactionRow) (transaction : Transaction) : Prop where
  amount : columnAsAmount "amount" row.amount = .ok transaction.amount
  fee : columnAsAmount "fee" row.fee = .ok transaction.fee
  mintUrl : env.mintUrlColumn row.mintUrl = .ok transaction.mintUrl
  unit : env.unitColumn row.unit = .ok transaction.unit
  timestamp : columnAsU64 "timestamp" row.timestamp = .ok transaction.timestamp
  ys : ∃ bytes, columnAsBinary "ys" row.ys = .ok bytes ∧
    (chunks 33 bytes).mapM (fun chunk => Outcome.ofOption Error.nut01
      (env.publicKeyFromSlice chunk)) = .ok transaction.ys

theorem readFrom_of_ok {row : TransactionRow} {transaction : Transaction}
    (h : sqlRowToTransaction env row.columns = .ok transaction) :
    ReadFrom env row transaction := by
  rw [TransactionRow.columns, sqlRowToTransaction] at h
  simp only [Outcome.bind_eq_ok] at h
  obtain ⟨amount, hamount, fee, hfee, url, hurl, direction, -, unit, hunit, bytes, hbytes, ys, hys,
    timestamp, htimestamp, memo, -, metadata, -, quoteId, -, request, -, proof, -, heq⟩ := h
  obtain rfl := Outcome.ok.inj heq
  exact ⟨hamount, hfee, hurl, hunit, htimestamp, bytes, hbytes, hys⟩

/-- A row is read as the transaction that it was written for exactly if its columns keep it. -/
theorem sqlRowToTransaction_iff {transaction : Transaction} (h : transaction.Written env) :
    sqlRowToTransaction env (transaction.toRow env).columns = .ok transaction ↔
      transaction.Fits env := by
  constructor
  · intro hread
    have hfrom := readFrom_of_ok hread
    exact ⟨columnAsAmount_lt hfrom.amount, columnAsAmount_lt hfrom.fee,
      columnAsU64_lt hfrom.timestamp, mintUrlColumn_text_iff.mp hfrom.mintUrl,
      unitColumn_text_iff.mp hfrom.unit⟩
  · rintro ⟨hamount, hfee, htimestamp, hurl, hunit⟩
    exact sqlRowToTransaction_columns ⟨hamount, hfee, h.ys, htimestamp, h.metadata⟩ hurl hunit

end Rows

/-! ## The rows of a history -/

/-- The id of a row is that of the points that it keeps. -/
def RowOfPoints (env : RowEnv) (row : TransactionRow) : Prop :=
  ∃ ys, (∀ y ∈ ys, env.ReadsPublicKey y) ∧ row.id = Db.idColumn (transactionId env ys) ∧
    row.ys = .blob (ys.flatMap PublicKey.toBytes)

section Histories

variable {env : RowEnv} {mintUrl : String} {unit : CurrencyUnit} {steps : List HistoryStep}
  {step : HistoryStep}

/-- A row is read as a transaction of its id. -/
theorem RowOfPoints.id_eq {row : TransactionRow} (h : RowOfPoints env row)
    {transaction : Transaction} (hread : sqlRowToTransaction env row.columns = .ok transaction) :
    row.id = Db.idColumn (transaction.id env) := by
  obtain ⟨ys, hys, hid, hcolumn⟩ := h
  obtain ⟨bytes, hbytes, hread⟩ := (readFrom_of_ok hread).ys
  rw [hcolumn, columnAsBinary] at hbytes
  cases hbytes
  rw [mapM_publicKeyFromSlice hys] at hread
  rw [hid, Transaction.id, ← Outcome.ok.inj hread]

theorem rowOfPoints_toRow {transaction : Transaction} (h : transaction.Written env) :
    RowOfPoints env (transaction.toRow env) := ⟨transaction.ys, h.ys, rfl, rfl⟩

theorem history_concat : history env mintUrl unit (steps ++ [step]) =
    step.apply env mintUrl unit (history env mintUrl unit steps) := by
  rw [history, List.foldl_append]
  rfl

theorem recorded_append (steps others : List HistoryStep) :
    recorded mintUrl unit (steps ++ others) =
      recorded mintUrl unit steps ++ recorded mintUrl unit others :=
  List.filterMap_append

theorem rowOfPoints_history
    (hwritten : ∀ t ∈ recorded mintUrl unit steps, t.Written env) :
    ∀ row ∈ (history env mintUrl unit steps).transactions.rows, RowOfPoints env row := by
  induction steps using List.reverseRecOn with
  | nil => exact fun _ h => nomatch h
  | append_singleton steps step ih =>
      rw [recorded_append, List.forall_mem_append] at hwritten
      have hrows := ih hwritten.1
      rw [history_concat]
      cases step with
      | reclaim proofYs => exact fun row hrow => hrows row (Table.mem_delete.mp hrow).1
      | record operation unixTime =>
          have hnew := rowOfPoints_toRow (hwritten.2 _ List.mem_cons_self)
          intro row hrow
          rcases Table.mem_upsert.mp hrow with rfl | ⟨hrow, -⟩
          · cases hfind : (history env mintUrl unit steps).transactions.find? _ with
            | none => exact hnew
            | some old => exact hrows old (Table.find?_eq_some.mp hfind).1
          · exact hrows row hrow

theorem apply_find?_of_ne {db : Db} {k : BitVec 256} (hid : step.id env mintUrl unit ≠ k)
    (h : db.transactions.find? (Db.idColumn k) = none) :
    (step.apply env mintUrl unit db).transactions.find? (Db.idColumn k) = none := by
  rw [Table.find?_eq_none] at h ⊢
  intro row hrow
  cases step with
  | reclaim proofYs => exact h row (Table.mem_delete.mp hrow).1
  | record operation unixTime =>
      rcases Table.mem_upsert.mp hrow with rfl | ⟨hrow, -⟩
      · intro heq
        apply hid
        apply idColumn_injective
        rw [← heq]
        cases hfind : db.transactions.find? _ with
        | none => rfl
        | some old => exact (Table.find?_eq_some.mp hfind).2.symm
      · exact h row hrow

/-- The last step of an id tells whether there is a row of it. -/
theorem find?_history (k : BitVec 256)
    (h : ∀ last ∈ (steps.filter fun s => s.id env mintUrl unit = k).getLast?,
      last.transaction mintUrl unit = none) :
    (history env mintUrl unit steps).transactions.find? (Db.idColumn k) = none := by
  induction steps using List.reverseRecOn with
  | nil => rfl
  | append_singleton steps step ih =>
      rw [history_concat]
      rw [List.filter_append] at h
      by_cases hid : step.id env mintUrl unit = k
      · rw [List.filter_singleton, decide_eq_true hid] at h
        have hnone := h step (by simp)
        cases step with
        | record operation unixTime => cases hnone
        | reclaim proofYs =>
            rw [Table.find?_eq_none]
            intro row hrow heq
            have hkept := (Table.mem_delete.mp hrow).2
            have hid : transactionId env proofYs = k := hid
            rw [heq, hid] at hkept
            simp at hkept
      · rw [List.filter_singleton, decide_eq_false hid] at h
        apply apply_find?_of_ne hid
        exact ih (by simpa using h)

/-- At most one transaction of an id is listed. -/
theorem countP_listed_le (hwritten : ∀ t ∈ recorded mintUrl unit steps, t.Written env)
    (k : BitVec 256) :
    (listed env mintUrl unit steps).countP (fun t => t.id env = k) ≤
      ((history env mintUrl unit steps).transactions.rows.map TransactionRow.id).count
        (Db.idColumn k) := by
  rw [listed, Db.listTransactions, Encoded.decodeWhere, List.countP_filterMap, List.count,
    List.countP_map]
  apply List.countP_mono_left
  intro row hrow hcounted
  have hpoints := rowOfPoints_history hwritten row hrow
  cases hread : sqlRowToTransaction env row.columns with
  | ok t =>
      simp only [hread] at hcounted
      split at hcounted
      next =>
        have hid : t.id env = k := by simpa using hcounted
        have := hpoints.id_eq hread
        simp [this, hid]
      next => simp at hcounted
  | err e => simp [hread] at hcounted
  | panic => simp [hread] at hcounted

/-- The operations of an id are counted among the steps of that id. -/
theorem countP_recorded (k : BitVec 256) :
    (recorded mintUrl unit steps).countP (fun t => t.id env = k) =
      (steps.filter fun s => s.id env mintUrl unit = k).countP
        fun s => (s.transaction mintUrl unit).isSome := by
  rw [recorded, List.countP_filterMap, List.countP_filter]
  apply List.countP_congr
  intro s _
  cases s with
  | record operation unixTime =>
      show decide _ = true ↔ (true && decide _) = true
      rw [Bool.true_and]
      rfl
  | reclaim proofYs => exact Iff.rfl

/-- Of the steps of an id at most the last records an operation, if all are kept. -/
theorem apart_of_historyKept (hwritten : ∀ t ∈ recorded mintUrl unit steps, t.Written env)
    (hkept : HistoryKept env mintUrl unit steps) : Apart env mintUrl unit steps := by
  rw [Apart, List.pairwise_iff_forall_sublist]
  intro earlier later hsub hearlier heq
  generalize hk : earlier.id env mintUrl unit = k at heq
  have hcount := (hkept.countP_le fun t => t.id env = k).trans (countP_listed_le hwritten k)
  have hfind := @find?_history env mintUrl unit steps k
  rw [countP_recorded] at hcount
  -- Both steps are among those of the id, and only the last of these can have a row.
  have hsub := hsub.filter fun s => s.id env mintUrl unit = k
  rw [List.filter_cons_of_pos (by simpa using hk),
    List.filter_cons_of_pos (by simpa using heq.symm), List.filter_nil] at hsub
  generalize (steps.filter fun s => s.id env mintUrl unit = k) = same at hcount hfind hsub
  cases same using List.reverseRecOn with
  | nil => cases hsub
  | append_singleton same last =>
      have hmem : earlier ∈ same := by
        have hinit := hsub.reverse.tail
        rw [List.reverse_concat] at hinit
        exact List.mem_reverse.mp (hinit.subset List.mem_cons_self)
      have hone := List.countP_pos_iff (p := fun s => (s.transaction mintUrl unit).isSome) |>.mpr
        ⟨earlier, hmem, hearlier⟩
      rw [List.countP_append, List.countP_singleton] at hcount
      cases hlast : last.transaction mintUrl unit with
      | some t =>
          have hle := List.nodup_iff_count_le_one.mp
            (history env mintUrl unit steps).transactions.nodup (Db.idColumn k)
          rw [hlast, Option.isSome_some, if_pos rfl] at hcount
          omega
      | none =>
          have hnone := hfind (by simpa using hlast)
          rw [Table.find?_eq_none] at hnone
          have habsent : Db.idColumn k ∉
              (history env mintUrl unit steps).transactions.rows.map TransactionRow.id := by
            simpa using hnone
          rw [List.count_eq_zero.mpr habsent] at hcount
          omega

theorem apart_append {others : List HistoryStep} (h : Apart env mintUrl unit (steps ++ others)) :
    Apart env mintUrl unit steps := (List.pairwise_append.mp h).1

/-- No row has the id of a step that comes after the steps of a history without repetition. -/
theorem id_ne_of_apart (hapart : Apart env mintUrl unit (steps ++ [step]))
    {t : Transaction} (ht : t ∈ recorded mintUrl unit steps) :
    t.id env ≠ step.id env mintUrl unit := by
  obtain ⟨earlier, hearlier, hrecord⟩ := List.mem_filterMap.mp ht
  have hne := (List.pairwise_append.mp hapart).2.2 earlier hearlier step List.mem_cons_self
    (by rw [hrecord]; rfl)
  cases earlier with
  | record operation unixTime =>
      obtain rfl := Option.some.inj hrecord
      exact hne
  | reclaim proofYs => cases hrecord

/-- Where no id comes again, the rows are those of all operations in their order. -/
theorem history_rows (hapart : Apart env mintUrl unit steps) :
    (history env mintUrl unit steps).transactions.rows =
      (recorded mintUrl unit steps).map (Transaction.toRow env) := by
  induction steps using List.reverseRecOn with
  | nil => rfl
  | append_singleton steps step ih =>
      have hrows := ih (apart_append hapart)
      have hfresh : ∀ row ∈ (history env mintUrl unit steps).transactions.rows,
          row.id ≠ Db.idColumn (step.id env mintUrl unit) := by
        rw [hrows]
        intro row hrow heq
        obtain ⟨t, ht, rfl⟩ := List.mem_map.mp hrow
        exact id_ne_of_apart hapart ht (idColumn_injective heq)
      rw [history_concat, recorded_append, List.map_append, ← hrows]
      cases step with
      | record operation unixTime =>
          have hwrite : (history env mintUrl unit steps).transactions.upsertWith
              TransactionRow.onConflict ((operation.transaction mintUrl unit unixTime).toRow env) =
              (history env mintUrl unit steps).transactions.upsert
                ((operation.transaction mintUrl unit unixTime).toRow env) :=
            Table.upsertWith_eq_upsert fun row hrow heq => absurd heq (hfresh row hrow)
          show (Table.upsertWith _ _ _).rows = _
          rw [hwrite, Table.upsert_rows hfresh]
          rfl
      | reclaim proofYs =>
          have hsame : (history env mintUrl unit steps).transactions.delete
              (fun row => row.id == Db.idColumn (transactionId env proofYs)) = _ :=
            Table.delete_eq_self fun row hrow => beq_eq_false_iff_ne.mpr (hfresh row hrow)
          show (Table.delete _ _).rows = _
          rw [hsame]
          exact (List.append_nil _).symm

/-- Where no id comes again, an operation is known by its id. -/
theorem eq_of_id_eq (hapart : Apart env mintUrl unit steps) {t u : Transaction}
    (ht : t ∈ recorded mintUrl unit steps) (hu : u ∈ recorded mintUrl unit steps)
    (h : t.id env = u.id env) : t = u := by
  induction steps using List.reverseRecOn with
  | nil => cases ht
  | append_singleton steps step ih =>
      rw [recorded_append, List.mem_append] at ht hu
      have hid : ∀ t ∈ recorded mintUrl unit [step], t.id env = step.id env mintUrl unit := by
        intro t ht
        obtain ⟨s, hs, hrecord⟩ := List.mem_filterMap.mp ht
        obtain rfl := List.mem_singleton.mp hs
        cases s with
        | record operation unixTime => rw [← Option.some.inj hrecord]; rfl
        | reclaim proofYs => cases hrecord
      rcases ht with ht | ht <;> rcases hu with hu | hu
      · exact ih (apart_append hapart) ht hu
      · exact absurd (h.trans (hid u hu)) (id_ne_of_apart hapart ht)
      · exact absurd (h.symm.trans (hid t ht)) (id_ne_of_apart hapart hu)
      · obtain ⟨s, hs, hrecord⟩ := List.mem_filterMap.mp ht
        obtain ⟨s', hs', hrecord'⟩ := List.mem_filterMap.mp hu
        obtain rfl := List.mem_singleton.mp hs
        obtain rfl := List.mem_singleton.mp hs'
        exact Option.some.inj (hrecord.symm.trans hrecord')

theorem mem_recorded_wallet {t : Transaction} (ht : t ∈ recorded mintUrl unit steps) :
    t.mintUrl = mintUrl ∧ t.unit = unit := by
  obtain ⟨s, -, hrecord⟩ := List.mem_filterMap.mp ht
  cases s with
  | record operation unixTime =>
      obtain rfl := Option.some.inj hrecord
      cases operation <;> exact ⟨rfl, rfl⟩
  | reclaim proofYs => cases hrecord

/-- An operation that is listed fits into the columns. -/
theorem fits_of_listed (hwritten : ∀ t ∈ recorded mintUrl unit steps, t.Written env)
    (hapart : Apart env mintUrl unit steps) {t : Transaction}
    (ht : t ∈ recorded mintUrl unit steps) (hlisted : t ∈ listed env mintUrl unit steps) :
    t.Fits env := by
  obtain ⟨row, hrow, hdecode⟩ := List.mem_filterMap.mp hlisted
  have hread : sqlRowToTransaction env row.columns = .ok t := by
    split at hdecode
    next u hu =>
      rw [Option.ite_none_right_eq_some] at hdecode
      rw [← Option.some.inj hdecode.2]
      exact hu
    next => cases hdecode
  have hid := (rowOfPoints_history hwritten row hrow).id_eq hread
  rw [history_rows hapart] at hrow
  obtain ⟨u, hu, rfl⟩ := List.mem_map.mp hrow
  obtain rfl := eq_of_id_eq hapart ht hu (idColumn_injective hid.symm)
  exact (sqlRowToTransaction_iff (hwritten t ht)).mp hread

/-- Where no id comes again and the columns keep every operation, exactly the operations are
listed. -/
theorem listed_eq (hwritten : ∀ t ∈ recorded mintUrl unit steps, t.Written env)
    (hapart : Apart env mintUrl unit steps)
    (hfits : ∀ t ∈ recorded mintUrl unit steps, t.Fits env) :
    listed env mintUrl unit steps = recorded mintUrl unit steps := by
  rw [listed, Db.listTransactions, Encoded.decodeWhere, history_rows hapart, List.filterMap_map]
  conv_rhs => rw [← List.filterMap_some (l := recorded mintUrl unit steps)]
  apply List.filterMap_congr
  intro t ht
  obtain ⟨hurl, hunit⟩ := mem_recorded_wallet ht
  have hread := (sqlRowToTransaction_iff (hwritten t ht)).mpr (hfits t ht)
  have hmatch : t.matchesConditions ⟨some mintUrl, none, some unit⟩ = true := by
    simp [Transaction.matchesConditions, hurl, hunit]
  simp only [Function.comp_apply, hread, hmatch, if_true]

/-- For every operation of a run the history lists a record of its own exactly if no later
operation and no later reclaiming has the id of its proofs and the columns keep its record. -/
theorem historyKept_iff (hwritten : ∀ t ∈ recorded mintUrl unit steps, t.Written env) :
    HistoryKept env mintUrl unit steps ↔
      Apart env mintUrl unit steps ∧ ∀ t ∈ recorded mintUrl unit steps, t.Fits env := by
  constructor
  · intro hkept
    have hapart := apart_of_historyKept hwritten hkept
    exact ⟨hapart, fun t ht => fits_of_listed hwritten hapart ht (hkept.subset ht)⟩
  · rintro ⟨hapart, hfits⟩
    rw [HistoryKept, listed_eq hwritten hapart hfits]

end Histories

/-! ## A token that comes back -/

def sampleSend : HistoryStep := .record (.send 8 1 [samplePoint] none ∅) 1700000000

/-- The wallet receives the token that it has sent. -/
def sampleReceive : HistoryStep := .record (.receive 8 7 [samplePoint] none ∅) 1700000060

theorem written_sample {operation : Operation} {unixTime : Nat}
    (hys : (operation.transaction "https://mint.example" .sat unixTime).ys = [samplePoint])
    (hmetadata : (operation.transaction "https://mint.example" .sat unixTime).metadata = ∅) :
    (operation.transaction "https://mint.example" .sat unixTime).Written sampleEnv where
  ys := by
    rw [hys]
    exact List.forall_mem_singleton.mpr readsPublicKey_samplePoint
  metadata := by
    rw [hmetadata]
    rfl

/-- The other point of the generator's coordinate. -/
def secondPoint : PublicKey := { samplePoint with odd := true }

/-- The libraries on both points. -/
def pointsEnv : RowEnv :=
  { sampleEnv with
    sha256 := fun bytes =>
      if bytes = secondPoint.toBytes then
        0xfbd27dbb9e7f471bf3de3704a35e884e37d35c676dc2cc8c3cc574c3962376d2
      else sampleEnv.sha256 bytes
    publicKeyFromSlice := fun bytes =>
      if bytes = secondPoint.toBytes then some secondPoint else sampleEnv.publicKeyFromSlice bytes }

/-- Two operations on different proofs, and the reclaiming of another proof. -/
def sampleSteps : List HistoryStep :=
  [.record (.mint 8 [samplePoint] "quote" "lnbc8") 1700000000,
    .record (.send 8 1 [secondPoint] none ∅) 1700000060, .reclaim [⟨false, 1⟩]]

theorem transactionId_singleton (env : RowEnv) (y : PublicKey) :
    transactionId env [y] = env.sha256 y.toBytes := by
  rw [transactionId, List.mergeSort_singleton, List.flatMap_singleton]

theorem apart_sampleSteps : Apart pointsEnv "https://mint.example" .sat sampleSteps := by
  have hids : sampleSteps.map (HistoryStep.id pointsEnv "https://mint.example" .sat) =
      [samplePoint, secondPoint, ⟨false, 1⟩].map fun y => pointsEnv.sha256 y.toBytes := by
    simp only [sampleSteps, List.map_cons, List.map_nil, HistoryStep.id, Transaction.id,
      Operation.transaction, transactionId_singleton]
  have hdistinct : ([samplePoint, secondPoint, ⟨false, 1⟩].map fun y =>
      pointsEnv.sha256 y.toBytes).Nodup := by
    decide +kernel
  rw [← hids, List.Nodup, List.pairwise_map] at hdistinct
  refine hdistinct.imp ?_
  intro earlier later hne _
  exact hne

/-- The history keeps both operations. -/
theorem historyKept_iff_sampleSteps :
    HistoryKept pointsEnv "https://mint.example" .sat sampleSteps := by
  have hreads : pointsEnv.ReadsPublicKey samplePoint ∧ pointsEnv.ReadsPublicKey secondPoint := by
    unfold RowEnv.ReadsPublicKey
    decide +kernel
  have hwritten : ∀ t ∈ recorded "https://mint.example" .sat sampleSteps, t.Written pointsEnv :=
    List.forall_mem_cons.mpr ⟨⟨List.forall_mem_singleton.mpr hreads.1, rfl⟩,
      List.forall_mem_singleton.mpr ⟨List.forall_mem_singleton.mpr hreads.2, rfl⟩⟩
  have hfits : ∀ t ∈ recorded "https://mint.example" .sat sampleSteps, t.Fits pointsEnv :=
    List.forall_mem_cons.mpr
      ⟨⟨by decide, by decide, by decide, normalUrl_sample, canonical_sat⟩,
        List.forall_mem_singleton.mpr
          ⟨by decide, by decide, by decide, normalUrl_sample, canonical_sat⟩⟩
  exact (historyKept_iff hwritten).mpr ⟨apart_sampleSteps, hfits⟩

/-- Receiving a token that the same wallet has sent puts the record of the receive in the place of
that of the send. -/
theorem not_historyKept : ¬ ∀ (env : RowEnv) (mintUrl : String) (unit : CurrencyUnit)
    (steps : List HistoryStep), (∀ t ∈ recorded mintUrl unit steps, t.Written env ∧ t.Fits env) →
      HistoryKept env mintUrl unit steps := by
  intro h
  have hwritten : ∀ t ∈ recorded "https://mint.example" .sat [sampleSend, sampleReceive],
      t.Written sampleEnv :=
    List.forall_mem_cons.mpr ⟨written_sample rfl rfl,
      List.forall_mem_singleton.mpr (written_sample rfl rfl)⟩
  have hfits : ∀ t ∈ recorded "https://mint.example" .sat [sampleSend, sampleReceive],
      t.Fits sampleEnv :=
    List.forall_mem_cons.mpr
      ⟨⟨by decide, by decide, by decide, normalUrl_sample, canonical_sat⟩,
        List.forall_mem_singleton.mpr
          ⟨by decide, by decide, by decide, normalUrl_sample, canonical_sat⟩⟩
  have hkept := h sampleEnv "https://mint.example" .sat [sampleSend, sampleReceive]
    fun t ht => ⟨hwritten t ht, hfits t ht⟩
  have hapart := apart_of_historyKept hwritten hkept
  have hne := List.rel_of_pairwise_cons hapart List.mem_cons_self rfl
  exact hne rfl

end SqlWallet

end Cdk
