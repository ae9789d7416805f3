import Cdk.Lib.Encoded
import Cdk.Lib.Runs
import Cdk.Wallet.SqlRows

/-!
# The SQL wallet store reads what was written

The store holds a row for each record. Beside it stands what was written: for
every key the last record whose write succeeded and that was not removed since.
As long as the records are of a kind that the columns keep, every query answers
with what was written. The exceptions are slips of single statements: a list
query without a comma, a statement that leaves out a column, and an encoding
that the reader does not expect.
-/

namespace Cdk

open Lib

namespace SqlWallet

/-! ## The store -/

/-- The tables of the store that hold whole records. -/
structure Db where
  mintQuotes : Table MintQuoteRow.id
  meltQuotes : Table MeltQuoteRow.id
  transactions : Table TransactionRow.id
  proofs : Table ProofRow.y
  mints : Table MintRow.mintUrl

/-- A store after its migrations. -/
def Db.empty : Db := ⟨.empty, .empty, .empty, .empty, .empty⟩

namespace Db

variable {N : Type} (env : RowEnv) (json : MintJson N) (db : Db)

/-- `add_mint_quote`, which sets every column on a conflict. -/
def addMintQuote (quote : MintQuote) : Outcome Error Db :=
  let row := quote.toRow env.casing
  if row.allowed then .ok { db with mintQuotes := db.mintQuotes.upsert row } else .err .database

/-- `get_mint_quote`. -/
def getMintQuote (quoteId : String) : Outcome Error (Option MintQuote) :=
  Encoded.decodeOne (fun row => sqlRowToMintQuote env row.columns)
    (db.mintQuotes.find? (.text quoteId))

/-- `get_mint_quotes`. -/
def getMintQuotes : Outcome Error (List MintQuote) :=
  db.mintQuotes.rows.mapM fun row => sqlRowToMintQuote env row.listColumns

/-- `remove_mint_quote`. -/
def removeMintQuote (quoteId : String) : Db :=
  { db with mintQuotes := db.mintQuotes.delete fun row => row.id == .text quoteId }

/-- `add_melt_quote`. -/
def addMeltQuote (quote : MeltQuote) : Outcome Error Db :=
  let row := quote.toRow env.casing
  if row.allowed then
    .ok { db with meltQuotes := db.meltQuotes.upsertWith MeltQuoteRow.onConflict row }
  else .err .database

/-- `get_melt_quote`. -/
def getMeltQuote (quoteId : String) : Outcome Error (Option MeltQuote) :=
  Encoded.decodeOne (fun row => sqlRowToMeltQuote env row.columns)
    (db.meltQuotes.find? (.text quoteId))

/-- `get_melt_quotes`. -/
def getMeltQuotes : Outcome Error (List MeltQuote) :=
  db.meltQuotes.rows.mapM fun row => sqlRowToMeltQuote env row.columns

/-- `remove_melt_quote`. -/
def removeMeltQuote (quoteId : String) : Db :=
  { db with meltQuotes := db.meltQuotes.delete fun row => row.id == .text quoteId }

/-- `add_transaction`. None of its values is `NULL` or outside a check. -/
def addTransaction (transaction : Transaction) : Db :=
  { db with
    transactions :=
      db.transactions.upsertWith TransactionRow.onConflict (transaction.toRow env) }

/-- The column of a transaction id. -/
def idColumn (id : BitVec 256) : Value := .blob (bytesOf 32 id.toNat)

/-- `get_transaction`. -/
def getTransaction (id : BitVec 256) : Outcome Error (Option Transaction) :=
  Encoded.decodeOne (fun row => sqlRowToTransaction env row.columns)
    (db.transactions.find? (idColumn id))

/-- `list_transactions`, which leaves out rows that it cannot read. -/
def listTransactions (filter : TransactionFilter) : List Transaction :=
  Encoded.decodeWhere (fun row => sqlRowToTransaction env row.columns)
    (fun transaction => transaction.matchesConditions filter) db.transactions.rows

/-- `remove_transaction`. -/
def removeTransaction (id : BitVec 256) : Db :=
  { db with transactions := db.transactions.delete fun row => row.id == idColumn id }

/-- The column of a point. -/
def yColumn (y : PublicKey) : Value := .blob y.toBytes

/-- `update_proofs`. None of its values is `NULL` or outside a check. -/
def updateProofs (added : List ProofInfo) (removed : List PublicKey) : Db :=
  { db with
    proofs := (added.foldl (fun t info => t.upsert (proofRow env info)) db.proofs).delete
      fun row => (removed.map yColumn).contains row.y }

/-- `get_proofs`, which leaves out rows that it cannot read. -/
def getProofs (filter : ProofFilter) : List ProofInfo :=
  Encoded.decodeWhere (fun row => sqlRowToProofInfo env row.columns)
    (fun info => info.matchesConditions filter) db.proofs.rows

/-- `add_mint`, which sets every column on a conflict. -/
def addMint (mintUrl : String) (info : Option (MintInfo N)) : Db :=
  { db with mints := db.mints.upsert (mintRow json mintUrl info) }

/-- `get_mint`. -/
def getMint (mintUrl : String) : Outcome Error (Option (MintInfo N)) :=
  Encoded.decodeOne (fun row => sqlRowToMintInfo env json row.columns)
    (db.mints.find? (.text mintUrl))

/-- `get_mints`, whose result is a map. -/
def getMints : Outcome Error (Table (Prod.fst : String × Option (MintInfo N) → String)) := do
  let mints ← db.mints.rows.mapM fun row => sqlRowToMint env json row.listColumns
  .ok (mints.foldl Table.upsert .empty)

/-- `remove_mint`. -/
def removeMint (mintUrl : String) : Db :=
  { db with mints := db.mints.delete fun row => row.mintUrl == .text mintUrl }

end Db

/-! ## What was written -/

/-- For every key the last record that was written under it and not removed since. -/
structure Written (env : RowEnv) (N : Type) where
  mintQuotes : Table MintQuote.id
  meltQuotes : Table MeltQuote.id
  transactions : Table (Transaction.id env)
  proofs : ProofTable
  mints : Table (Prod.fst : String × Option (MintInfo N) → String)

/-- A call that changes the store. -/
inductive Write (N : Type) where
  | addMintQuote (quote : MintQuote)
  | removeMintQuote (quoteId : String)
  | addMeltQuote (quote : MeltQuote)
  | removeMeltQuote (quoteId : String)
  | addTransaction (transaction : Transaction)
  | removeTransaction (id : BitVec 256)
  | updateProofs (added : List ProofInfo) (removed : List PublicKey)
  | addMint (mintUrl : String) (info : Option (MintInfo N))
  | removeMint (mintUrl : String)

/-- A call that asks the store. -/
inductive Query where
  | mintQuote (quoteId : String)
  | mintQuotes
  | meltQuote (quoteId : String)
  | meltQuotes
  | transaction (id : BitVec 256)
  | transactions (filter : TransactionFilter)
  | proofs (filter : ProofFilter)
  | mint (mintUrl : String)
  | mints

inductive Call (N : Type) where
  | write (w : Write N)
  | query (q : Query)

section System

variable {N : Type} (env : RowEnv) (json : MintJson N)

/-- What a call makes of the store. -/
def Db.write (db : Db) : Write N → Outcome Error Db
  | .addMintQuote quote => db.addMintQuote env quote
  | .removeMintQuote quoteId => .ok (db.removeMintQuote quoteId)
  | .addMeltQuote quote => db.addMeltQuote env quote
  | .removeMeltQuote quoteId => .ok (db.removeMeltQuote quoteId)
  | .addTransaction transaction => .ok (db.addTransaction env transaction)
  | .removeTransaction id => .ok (db.removeTransaction id)
  | .updateProofs added removed => .ok (db.updateProofs env added removed)
  | .addMint mintUrl info => .ok (db.addMint json mintUrl info)
  | .removeMint mintUrl => .ok (db.removeMint mintUrl)

variable {env} in
/-- What a call that succeeds makes of the records. -/
def Written.write (written : Written env N) : Write N → Written env N
  | .addMintQuote quote => { written with mintQuotes := written.mintQuotes.upsert quote }
  | .removeMintQuote quoteId =>
      { written with mintQuotes := written.mintQuotes.delete fun quote => quote.id == quoteId }
  | .addMeltQuote quote => { written with meltQuotes := written.meltQuotes.upsert quote }
  | .removeMeltQuote quoteId =>
      { written with meltQuotes := written.meltQuotes.delete fun quote => quote.id == quoteId }
  | .addTransaction transaction =>
      { written with transactions := written.transactions.upsert transaction }
  | .removeTransaction id =>
      { written with
        transactions := written.transactions.delete fun transaction => transaction.id env == id }
  | .updateProofs added removed =>
      { written with proofs := (written.proofs.insertAll added).removeAll removed }
  | .addMint mintUrl info => { written with mints := written.mints.upsert (mintUrl, info) }
  | .removeMint mintUrl =>
      { written with mints := written.mints.delete fun mint => mint.1 == mintUrl }

/-- The store and what was written to it. -/
structure Store (N : Type) where
  db : Db
  written : Written env N

def Store.initial : Store env N := ⟨.empty, ⟨.empty, .empty, .empty, .empty, .empty⟩⟩

/-- A call. One that fails has written nothing. -/
def step (s : Store env N) : Call N → Store env N
  | .query _ => s
  | .write w =>
      match s.db.write env json w with
      | .ok db => ⟨db, s.written.write w⟩
      | _ => s

/-- The store answers a query with what was written. -/
def AnsweredRight (s : Store env N) : Query → Prop
  | .mintQuote quoteId => s.db.getMintQuote env quoteId = .ok (s.written.mintQuotes.find? quoteId)
  | .mintQuotes => s.db.getMintQuotes env = .ok s.written.mintQuotes.rows
  | .meltQuote quoteId => s.db.getMeltQuote env quoteId = .ok (s.written.meltQuotes.find? quoteId)
  | .meltQuotes => s.db.getMeltQuotes env = .ok s.written.meltQuotes.rows
  | .transaction id => s.db.getTransaction env id = .ok (s.written.transactions.find? id)
  | .transactions filter =>
      s.db.listTransactions env filter =
        s.written.transactions.rows.filter fun t => t.matchesConditions filter
  | .proofs filter =>
      s.db.getProofs env filter = s.written.proofs.rows.filter fun p => p.matchesConditions filter
  | .mint mintUrl =>
      s.db.getMint env json mintUrl = .ok ((s.written.mints.find? mintUrl).bind Prod.snd)
  | .mints => s.db.getMints env json = .ok s.written.mints

/-- Every query of a run is answered right. -/
def ReadsBack (s : Store env N) : List (Call N) → Prop :=
  Along (step env json) (fun s call => ∀ q, call = .query q → AnsweredRight env json s q) s

/-- The fields of the written records that go through a library are read as they were written, and
their numbers fit their columns. -/
def Write.Encodable : Write N → Prop
  | .addMintQuote quote => quote.Encodable env
  | .addMeltQuote quote => quote.Encodable
  | .addTransaction transaction => transaction.Encodable env
  | .updateProofs added _ => ∀ info ∈ added, ProofEncodable env info
  | .addMint _ info => ∀ i ∈ info, i.Encodable json
  | _ => True

/-- The columns keep the records that a call writes: its mint URLs are normal, its units and payment
methods have no capital letters to lose, a melt quote has no preimage, a transaction has the points
of the one it overwrites, and a mint has information without a key. All mint quotes are asked for
only while there is none. -/
def Kept (s : Store env N) : Call N → Prop
  | .write (.addMintQuote quote) =>
      env.NormalUrl quote.mintUrl ∧ quote.unit.Canonical env.casing ∧
        quote.paymentMethod.Canonical env.casing
  | .write (.addMeltQuote quote) =>
      quote.unit.Canonical env.casing ∧ quote.paymentMethod.Canonical env.casing ∧
        quote.paymentPreimage = none
  | .write (.addTransaction transaction) =>
      env.NormalUrl transaction.mintUrl ∧ transaction.unit.Canonical env.casing ∧
        ∀ old ∈ s.written.transactions.rows,
          old.id env = transaction.id env → old.ys = transaction.ys
  | .write (.updateProofs added _) =>
      ∀ info ∈ added, env.NormalUrl info.mintUrl ∧ info.unit.Canonical env.casing
  | .write (.addMint mintUrl info) =>
      env.NormalUrl mintUrl ∧ ∃ i, info = some i ∧ i.pubkey = none
  | .query .mintQuotes => s.written.mintQuotes.rows = []
  | _ => True

/-! ## The store holds the rows of what was written -/

/-- Every row encodes a written record, and is read as that record. -/
structure Inv (s : Store env N) : Prop where
  mintQuotes : Encoded (MintQuote.toRow env.casing) s.written.mintQuotes s.db.mintQuotes
  meltQuotes : Encoded (MeltQuote.toRow env.casing) s.written.meltQuotes s.db.meltQuotes
  transactions : Encoded (Transaction.toRow env) s.written.transactions s.db.transactions
  proofs : Encoded (proofRow env) s.written.proofs s.db.proofs
  mints : Encoded (fun mint => mintRow json mint.1 mint.2) s.written.mints s.db.mints
  mintQuote_read : ∀ quote ∈ s.written.mintQuotes.rows,
    sqlRowToMintQuote env (quote.toRow env.casing).columns = .ok quote
  meltQuote_read : ∀ quote ∈ s.written.meltQuotes.rows,
    sqlRowToMeltQuote env (quote.toRow env.casing).columns = .ok quote
  transaction_read : ∀ transaction ∈ s.written.transactions.rows,
    sqlRowToTransaction env (transaction.toRow env).columns = .ok transaction
  proof_read : ∀ info ∈ s.written.proofs.rows,
    sqlRowToProofInfo env (proofRow env info).columns = .ok info
  mint_read : ∀ mint ∈ s.written.mints.rows, ∃ info, mint.2 = some info ∧
    sqlRowToMintInfo env json (mintRow json mint.1 mint.2).columns = .ok info ∧
    sqlRowToMint env json (mintRow json mint.1 mint.2).listColumns = .ok mint

theorem inv_initial : Inv env json (Store.initial env) where
  mintQuotes := .empty
  meltQuotes := .empty
  transactions := .empty
  proofs := .empty
  mints := .empty
  mintQuote_read := by intro _ h; cases h
  meltQuote_read := by intro _ h; cases h
  transaction_read := by intro _ h; cases h
  proof_read := by intro _ h; cases h
  mint_read := by intro _ h; cases h

variable {env json} {s : Store env N}

/-! ### The columns of keys -/

theorem text_injective : Function.Injective Value.text := fun _ _ h => Value.text.inj h

theorem yColumn_injective : Function.Injective Db.yColumn := fun _ _ h =>
  PublicKey.toBytes_injective (Value.blob.inj h)

theorem idColumn_injective : Function.Injective Db.idColumn := fun _ _ h =>
  eq_of_bytesOf (by decide) (Value.blob.inj h)

theorem mintRow_mintUrl (mintUrl : String) (info : Option (MintInfo N)) :
    (mintRow json mintUrl info).mintUrl = .text mintUrl := by
  cases info <;> rfl

/-- Comparing columns of keys is comparing keys. -/
theorem beq_column {κ : Type} [DecidableEq κ] {f : κ → Value} (hf : Function.Injective f)
    (a b : κ) : (f a == f b) = (a == b) := by
  by_cases h : a = b
  · simp [h]
  · simp [h, hf.ne h]

theorem contains_map_column {κ : Type} [DecidableEq κ] {f : κ → Value} (hf : Function.Injective f)
    (keys : List κ) (k : κ) : (keys.map f).contains (f k) = keys.contains k := by
  rw [Bool.eq_iff_iff, List.contains_iff_mem, List.contains_iff_mem]
  exact List.mem_map_of_injective hf

/-- Records that are read stay so when one that is read is written. -/
theorem read_upsert {κ ρ : Type} [DecidableEq κ] {key : ρ → κ} {t : Table key} {r : ρ}
    {Read : ρ → Prop} (h : ∀ r ∈ t.rows, Read r) (hr : Read r) :
    ∀ r' ∈ (t.upsert r).rows, Read r' := by
  intro r' hr'
  rcases Table.mem_upsert.mp hr' with rfl | ⟨hmem, -⟩
  · exact hr
  · exact h r' hmem

theorem read_delete {κ ρ : Type} {key : ρ → κ} {t : Table key} {p : ρ → Bool}
    {Read : ρ → Prop} (h : ∀ r ∈ t.rows, Read r) : ∀ r ∈ (t.delete p).rows, Read r :=
  fun r hr => h r (Table.mem_delete.mp hr).1

/-! ### Quotes -/

theorem inv_addMintQuote {quote : MintQuote} {db : Db} (h : Inv env json s)
    (hread : sqlRowToMintQuote env (quote.toRow env.casing).columns = .ok quote)
    (hdb : s.db.addMintQuote env quote = .ok db) :
    Inv env json ⟨db, s.written.write (.addMintQuote quote)⟩ := by
  simp only [Db.addMintQuote] at hdb
  split at hdb
  next =>
    cases hdb
    exact { h with
      mintQuotes := h.mintQuotes.upsert text_injective fun _ => rfl
      mintQuote_read := read_upsert h.mintQuote_read hread }
  next => cases hdb

theorem inv_removeMintQuote (h : Inv env json s) (quoteId : String) :
    Inv env json ⟨s.db.removeMintQuote quoteId, s.written.write (.removeMintQuote quoteId)⟩ :=
  { h with
    mintQuotes := h.mintQuotes.delete fun quote _ => beq_column text_injective quote.id quoteId
    mintQuote_read := read_delete h.mintQuote_read }

theorem inv_addMeltQuote {quote : MeltQuote} {db : Db} (h : Inv env json s)
    (hread : sqlRowToMeltQuote env (quote.toRow env.casing).columns = .ok quote)
    (hdb : s.db.addMeltQuote env quote = .ok db) :
    Inv env json ⟨db, s.written.write (.addMeltQuote quote)⟩ := by
  simp only [Db.addMeltQuote] at hdb
  split at hdb
  next =>
    cases hdb
    -- no row has a preimage, so the row of a conflict is the row that is inserted
    have hset : s.db.meltQuotes.upsertWith MeltQuoteRow.onConflict (quote.toRow env.casing) =
        s.db.meltQuotes.upsert (quote.toRow env.casing) := by
      apply Table.upsertWith_eq_upsert
      intro old hold hid
      rw [h.meltQuotes] at hold
      obtain ⟨oldQuote, -, rfl⟩ := List.mem_map.mp hold
      rw [MeltQuoteRow.onConflict, hid]
      rfl
    exact { h with
      meltQuotes := by
        dsimp only
        rw [hset]
        exact h.meltQuotes.upsert text_injective fun _ => rfl
      meltQuote_read := read_upsert h.meltQuote_read hread }
  next => cases hdb

theorem inv_removeMeltQuote (h : Inv env json s) (quoteId : String) :
    Inv env json ⟨s.db.removeMeltQuote quoteId, s.written.write (.removeMeltQuote quoteId)⟩ :=
  { h with
    meltQuotes := h.meltQuotes.delete fun quote _ => beq_column text_injective quote.id quoteId
    meltQuote_read := read_delete h.meltQuote_read }

/-! ### Transactions -/

theorem inv_addTransaction {transaction : Transaction} (h : Inv env json s)
    (hread : sqlRowToTransaction env (transaction.toRow env).columns = .ok transaction)
    (hys : ∀ old ∈ s.written.transactions.rows,
      old.id env = transaction.id env → old.ys = transaction.ys) :
    Inv env json
      ⟨s.db.addTransaction env transaction, s.written.write (.addTransaction transaction)⟩ := by
  have hset : s.db.transactions.upsertWith TransactionRow.onConflict (transaction.toRow env) =
      s.db.transactions.upsert (transaction.toRow env) := by
    apply Table.upsertWith_eq_upsert
    intro row hrow hid
    rw [h.transactions] at hrow
    obtain ⟨old, hold, rfl⟩ := List.mem_map.mp hrow
    have hpoints : (old.toRow env).ys = (transaction.toRow env).ys := by
      rw [Transaction.toRow, Transaction.toRow, hys old hold (idColumn_injective hid)]
    rw [TransactionRow.onConflict, hid, hpoints]
  exact { h with
    transactions := by
      simp only [Db.addTransaction, hset]
      exact h.transactions.upsert idColumn_injective fun _ => rfl
    transaction_read := read_upsert h.transaction_read hread }

theorem inv_removeTransaction (h : Inv env json s) (id : BitVec 256) :
    Inv env json ⟨s.db.removeTransaction id, s.written.write (.removeTransaction id)⟩ :=
  { h with
    transactions :=
      h.transactions.delete fun transaction _ =>
        beq_column idColumn_injective (transaction.id env) id
    transaction_read := read_delete h.transaction_read }

/-! ### Proofs -/

theorem encoded_insertAll {t : ProofTable} {rows : Table ProofRow.y}
    (h : Encoded (proofRow env) t rows) (added : List ProofInfo) :
    Encoded (proofRow env) (t.insertAll added)
      (added.foldl (fun t info => t.upsert (proofRow env info)) rows) := by
  induction added generalizing t rows with
  | nil => exact h
  | cons info rest ih => exact ih (h.upsert yColumn_injective fun _ => rfl)

theorem read_insertAll {t : ProofTable} {Read : ProofInfo → Prop} {added : List ProofInfo}
    (h : ∀ info ∈ t.rows, Read info) (hadded : ∀ info ∈ added, Read info) :
    ∀ info ∈ (t.insertAll added).rows, Read info := by
  induction added generalizing t with
  | nil => exact h
  | cons info rest ih =>
      obtain ⟨hinfo, hrest⟩ := List.forall_mem_cons.mp hadded
      exact ih (read_upsert h hinfo) hrest

theorem encoded_updateProofs {t : ProofTable} {db : Db} (h : Encoded (proofRow env) t db.proofs)
    (added : List ProofInfo) (removed : List PublicKey) :
    Encoded (proofRow env) ((t.insertAll added).removeAll removed)
      (db.updateProofs env added removed).proofs :=
  (encoded_insertAll h added).delete fun info _ =>
    contains_map_column yColumn_injective removed info.y

theorem inv_updateProofs {added : List ProofInfo} (h : Inv env json s)
    (hread : ∀ info ∈ added, sqlRowToProofInfo env (proofRow env info).columns = .ok info)
    (removed : List PublicKey) :
    Inv env json
      ⟨s.db.updateProofs env added removed, s.written.write (.updateProofs added removed)⟩ :=
  { h with
    proofs := encoded_updateProofs h.proofs added removed
    proof_read := read_delete (read_insertAll h.proof_read hread) }

/-! ### Mints -/

theorem inv_addMint {mintUrl : String} {info : MintInfo N} (h : Inv env json s)
    (hread : sqlRowToMintInfo env json (mintRow json mintUrl (some info)).columns = .ok info)
    (hlist : sqlRowToMint env json (mintRow json mintUrl (some info)).listColumns =
      .ok (mintUrl, some info)) :
    Inv env json ⟨s.db.addMint json mintUrl (some info),
      s.written.write (.addMint mintUrl (some info))⟩ :=
  { h with
    mints := h.mints.upsert (r := (mintUrl, some info)) text_injective fun mint =>
      mintRow_mintUrl mint.1 mint.2
    mint_read := read_upsert h.mint_read ⟨info, rfl, hread, hlist⟩ }

theorem inv_removeMint (h : Inv env json s) (mintUrl : String) :
    Inv env json ⟨s.db.removeMint mintUrl, s.written.write (.removeMint mintUrl)⟩ :=
  { h with
    mints := h.mints.delete fun mint _ => by
      rw [mintRow_mintUrl]
      exact beq_column text_injective mint.1 mintUrl
    mint_read := read_delete h.mint_read }

/-! ### Every call -/

/-- A call whose records are encodable and kept leaves the rows in step with the records. -/
theorem step_inv (s : Store env N) (call : Call N) (h : Inv env json s)
    (hcall : Kept env s call ∧ ∀ w, call = .write w → w.Encodable env json) :
    Inv env json (step env json s call) := by
  obtain ⟨hkept, hencodable⟩ := hcall
  cases call with
  | query q => exact h
  | write w =>
      replace hencodable := hencodable w rfl
      simp only [step]
      cases hwrite : s.db.write env json w with
      | err => exact h
      | panic => exact h
      | ok db =>
          cases w with
          | addMintQuote quote =>
              exact inv_addMintQuote h
                (sqlRowToMintQuote_columns hencodable hkept.1 hkept.2.1 hkept.2.2) hwrite
          | addMeltQuote quote =>
              exact inv_addMeltQuote h
                (sqlRowToMeltQuote_columns hencodable hkept.1 hkept.2.1 hkept.2.2) hwrite
          | removeMintQuote quoteId =>
              cases hwrite
              exact inv_removeMintQuote h quoteId
          | removeMeltQuote quoteId =>
              cases hwrite
              exact inv_removeMeltQuote h quoteId
          | addTransaction transaction =>
              cases hwrite
              exact inv_addTransaction h
                (sqlRowToTransaction_columns hencodable hkept.1 hkept.2.1) hkept.2.2
          | removeTransaction id =>
              cases hwrite
              exact inv_removeTransaction h id
          | updateProofs added removed =>
              cases hwrite
              apply inv_updateProofs h
              intro info hinfo
              obtain ⟨hurl, hunit⟩ := hkept info hinfo
              exact sqlRowToProofInfo_columns (hencodable info hinfo) hurl hunit
          | addMint mintUrl info =>
              cases hwrite
              obtain ⟨hurl, i, rfl, hpubkey⟩ := hkept
              have hinfo := hencodable i rfl
              exact inv_addMint h (sqlRowToMintInfo_columns hinfo hpubkey mintUrl)
                (sqlRowToMint_listColumns hurl hinfo hpubkey)
          | removeMint mintUrl =>
              cases hwrite
              exact inv_removeMint h mintUrl

/-! ## Answers -/

theorem answeredRight_of_inv (h : Inv env json s) {q : Query}
    (hkept : Kept env s (.query q : Call N)) : AnsweredRight env json s q := by
  cases q with
  | mintQuote quoteId =>
      exact h.mintQuotes.decodeOne_find? text_injective (fun _ => rfl) h.mintQuote_read quoteId
  | mintQuotes =>
      have hnone : s.written.mintQuotes.rows = [] := hkept
      have hrows : s.db.mintQuotes.rows = [] := by
        rw [h.mintQuotes, hnone, List.map_nil]
      simp only [AnsweredRight, Db.getMintQuotes, hrows, hnone]
      rfl
  | meltQuote quoteId =>
      exact h.meltQuotes.decodeOne_find? text_injective (fun _ => rfl) h.meltQuote_read quoteId
  | meltQuotes => exact h.meltQuotes.mapM_decode h.meltQuote_read
  | transaction id =>
      exact h.transactions.decodeOne_find? idColumn_injective (fun _ => rfl) h.transaction_read id
  | transactions filter => exact h.transactions.decodeWhere_eq h.transaction_read _
  | proofs filter => exact h.proofs.decodeWhere_eq h.proof_read _
  | mint mintUrl =>
      simp only [AnsweredRight, Db.getMint]
      rw [h.mints.find? text_injective fun mint => mintRow_mintUrl mint.1 mint.2]
      cases hfind : s.written.mints.find? mintUrl with
      | none => rfl
      | some mint =>
          obtain ⟨info, hinfo, hread, -⟩ := h.mint_read mint (Table.find?_eq_some.mp hfind).1
          rw [Option.map_some, Encoded.decodeOne, hread, Option.bind_some, hinfo]
          rfl
  | mints =>
      have hread : s.db.mints.rows.mapM (fun row => sqlRowToMint env json row.listColumns) =
          .ok s.written.mints.rows := by
        apply h.mints.mapM_decode
        intro mint hmint
        obtain ⟨info, -, -, hlist⟩ := h.mint_read mint hmint
        exact hlist
      rw [AnsweredRight, Db.getMints, hread, Outcome.bind_ok, Table.foldl_upsert_rows]

/-- In a run whose records are encodable and kept, every query answers with what was written. -/
theorem readsBack_of_kept {calls : List (Call N)}
    (hencodable : ∀ call ∈ calls, ∀ w, call = .write w → w.Encodable env json)
    (hkept : Along (step env json) (Kept env) (Store.initial env) calls) :
    ReadsBack env json (Store.initial env) calls := by
  refine along_of_invariant step_inv ?_ (inv_initial env json) (along_and hkept hencodable)
  rintro s call hinv ⟨hcall, -⟩ q rfl
  exact answeredRight_of_inv hinv hcall

end System

/-! ## A store with one record of each kind -/

/-- The generator of the curve. -/
def samplePoint : PublicKey :=
  ⟨false, 0x79be667ef9dcbbac55a06295ce870b07029bfcdb2dce28d959f2815b16f81798⟩

/-- The libraries on lower-case texts, one point and empty JSON objects. -/
def sampleEnv : RowEnv where
  casing :=
    ⟨fun text => String.ofList (text.toList.map Char.toLower),
      fun text => String.ofList (text.toList.map Char.toUpper)⟩
  fromUtf8Lossy _ := ""
  sha256 bytes :=
    if bytes = samplePoint.toBytes then
      0x0f715baf5d4c2ed329785cef29e562f73488c8a2bb9dbc5700b361d54b9b0554
    else 0
  publicKeyFromStr _ := none
  publicKeyFromSlice bytes := if bytes = samplePoint.toBytes then some samplePoint else none
  secretKeyFromStr _ := none
  secretKeyFromSlice _ := none
  witness := ⟨fun _ => "", fun _ => none, fun _ => none⟩
  spendingConditions := ⟨fun _ => "", fun _ => none, fun _ => none⟩
  metadata :=
    ⟨fun _ => "\x7b\x7d", fun text => if text = "\x7b\x7d" then some ∅ else none, fun _ => none⟩

def sampleJson : MintJson Unit where
  publicKey := ⟨fun _ => "", fun _ => none, fun _ => none⟩
  version := ⟨fun _ => "", fun _ => none, fun _ => none⟩
  contact := ⟨fun _ => "", fun _ => none, fun _ => none⟩
  nuts := ⟨fun _ => "\x7b\x7d", fun _ => some (), fun _ => none⟩
  urls := ⟨fun _ => "", fun _ => none, fun _ => none⟩
  defaultNuts := ()

def sampleMintQuote : MintQuote where
  id := "q"
  mintUrl := "https://mint.example"
  paymentMethod := .bolt11
  amount := some 8
  unit := .sat
  request := "lnbc1"
  state := .unpaid
  expiry := 1700000000
  secretKey := none
  amountIssued := 0
  amountPaid := 0

def sampleMeltQuote : MeltQuote where
  id := "q"
  unit := .sat
  amount := 8
  request := "lnbc1"
  feeReserve := 1
  state := .unpaid
  expiry := 1700000000
  paymentPreimage := none
  paymentMethod := .bolt11

def sampleTransaction : Transaction where
  mintUrl := "https://mint.example"
  direction := .incoming
  amount := 8
  fee := 1
  unit := .sat
  ys := [samplePoint]
  timestamp := 1700000000
  memo := none
  metadata := ∅
  quoteId := none
  paymentRequest := none
  paymentProof := none

def sampleMint : MintInfo Unit :=
  ⟨some "mint", none, none, none, none, none, (), none, none, none, some 1700000000, none⟩

theorem readsPublicKey_samplePoint : sampleEnv.ReadsPublicKey samplePoint := by
  rw [RowEnv.ReadsPublicKey]
  decide +kernel

theorem normalUrl_sample : sampleEnv.NormalUrl "https://mint.example" := by
  rw [RowEnv.NormalUrl]
  decide +kernel

theorem canonical_sat : CurrencyUnit.sat.Canonical sampleEnv.casing := by
  rw [CurrencyUnit.Canonical]
  decide +kernel

/-- The proof of one sat at the generator. -/
def sampleProof : ProofInfo := ProofInfo.sample samplePoint.x.toNat

theorem encodable_sampleProof : ProofEncodable sampleEnv sampleProof where
  amount := by decide
  c := readsPublicKey_samplePoint
  y := readsPublicKey_samplePoint
  witness := by intro _ h; cases h
  spendingCondition := by intro _ h; cases h
  dleq := by intro _ h; cases h

def sampleCalls : List (Call Unit) :=
  [.query .mintQuotes, .write (.addMintQuote sampleMintQuote), .query (.mintQuote "q"),
    .write (.addMeltQuote sampleMeltQuote), .query .meltQuotes,
    .write (.addTransaction sampleTransaction), .query (.transactions ⟨none, none, none⟩),
    .write (.updateProofs [sampleProof] []),
    .query (.proofs ⟨none, none, none, none⟩),
    .write (.addMint "https://mint.example" (some sampleMint)), .query .mints]

theorem encodable_sampleCalls :
    ∀ call ∈ sampleCalls, ∀ w, call = .write w → w.Encodable sampleEnv sampleJson := by
  have hnone : ∀ {T : Type} {P : T → Prop}, ∀ v ∈ (none : Option T), P v := by
    intro _ _ _ hv
    cases hv
  rintro call hcall w rfl
  simp only [sampleCalls, List.mem_cons, reduceCtorEq, Call.write.injEq, List.not_mem_nil,
    false_or, or_false] at hcall
  rcases hcall with rfl | rfl | rfl | rfl | rfl
  · exact ⟨by decide, by decide, hnone, by decide, by decide⟩
  · exact ⟨by decide, by decide, by decide⟩
  · refine ⟨by decide, by decide, ?_, by decide, rfl⟩
    intro y hy
    rw [List.mem_singleton.mp hy]
    exact readsPublicKey_samplePoint
  · intro info hinfo
    rw [List.mem_singleton.mp hinfo]
    exact encodable_sampleProof
  · intro info hinfo
    cases hinfo
    exact ⟨hnone, hnone, rfl, hnone, by decide⟩

theorem readsBack_sampleCalls :
    ReadsBack sampleEnv sampleJson (Store.initial sampleEnv) sampleCalls := by
  have hmethod : PaymentMethod.bolt11.Canonical sampleEnv.casing := by
    rw [PaymentMethod.Canonical]
    decide +kernel
  apply readsBack_of_kept encodable_sampleCalls
  refine ⟨rfl, ⟨normalUrl_sample, canonical_sat, hmethod⟩, trivial,
    ⟨canonical_sat, hmethod, rfl⟩, trivial, ⟨normalUrl_sample, canonical_sat, ?_⟩, trivial, ?_,
    trivial, ⟨normalUrl_sample, sampleMint, rfl, rfl⟩, trivial, trivial⟩
  · intro old hold
    have hnone : old ∈ ([] : List Transaction) := hold
    cases hnone
  · intro info hinfo
    rw [List.mem_singleton.mp hinfo]
    exact ⟨normalUrl_sample, canonical_sat⟩

/-- A mint quote is written, and all mint quotes are asked for. -/
theorem not_readsBack_mintQuotes :
    ¬ ∀ calls : List (Call Unit),
      (∀ call ∈ calls, ∀ w, call = .write w → w.Encodable sampleEnv sampleJson) →
        ReadsBack sampleEnv sampleJson (Store.initial sampleEnv) calls := by
  intro h
  have hall := h [.write (.addMintQuote sampleMintQuote), .query .mintQuotes] (by
    rintro call hcall w rfl
    exact encodable_sampleCalls _ (by
      simp only [List.mem_cons, Call.write.injEq, reduceCtorEq, List.not_mem_nil, or_false] at hcall
      rw [hcall]
      simp [sampleCalls]) w rfl)
  obtain ⟨-, hanswered, -⟩ := hall
  have hmissing : (step sampleEnv sampleJson (Store.initial sampleEnv)
      (.write (.addMintQuote sampleMintQuote))).db.getMintQuotes sampleEnv =
        .err (.conversion (.missingColumn 11 10)) := rfl
  have hlist := hanswered .mintQuotes rfl
  rw [AnsweredRight, hmissing] at hlist
  cases hlist

end SqlWallet

end Cdk
