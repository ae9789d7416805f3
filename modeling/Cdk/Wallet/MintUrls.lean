import Cdk.Wallet.ProofStores

/-!
# The url of a mint changes

A wallet that follows a mint to another url has its store rewrite the records
of the old url. The SQL store updates two tables by their url columns. The redb
store lists the proofs of the old url and writes them again, and does the same
with the mint quotes that have expired, whichever mint they are of.
-/

namespace Cdk

open Lib

/-! ## The redb store -/

def ProofInfo.setMintUrl (info : ProofInfo) (mintUrl : String) : ProofInfo :=
  { info with mintUrl := mintUrl }

def SqlWallet.MintQuote.setMintUrl (quote : SqlWallet.MintQuote) (mintUrl : String) :
    SqlWallet.MintQuote := { quote with mintUrl := mintUrl }

/-- The tables of proofs and of mint quotes. -/
structure RedbRecords where
  proofs : ProofTable
  mintQuotes : Table SqlWallet.MintQuote.id

namespace RedbRecords

/-- The first part of `WalletRedbDatabase::update_mint_url`. -/
def updateProofsUrl (oldMintUrl newMintUrl : String) (proofs : ProofTable) : ProofTable :=
  let found := proofs.rows.filter fun info =>
    info.matchesConditions ⟨some oldMintUrl, none, none, none⟩
  let updatedProofs := found.map fun info => info.setMintUrl newMintUrl
  if updatedProofs = [] then proofs else redbUpdateProofs updatedProofs [] proofs

/-- The second part, which selects by the time of expiry alone. -/
def updateQuotesUrl (newMintUrl : String) (unixTime : Nat)
    (mintQuotes : Table SqlWallet.MintQuote.id) : Table SqlWallet.MintQuote.id :=
  let quotes := mintQuotes.rows.filterMap fun quote =>
    if quote.expiry < unixTime then some (quote.setMintUrl newMintUrl) else none
  quotes.foldl Table.upsert mintQuotes

/-- `WalletRedbDatabase::update_mint_url`. -/
def updateMintUrl (oldMintUrl newMintUrl : String) (unixTime : Nat) (s : RedbRecords) :
    RedbRecords :=
  ⟨updateProofsUrl oldMintUrl newMintUrl s.proofs,
    updateQuotesUrl newMintUrl unixTime s.mintQuotes⟩

end RedbRecords

/-! ## The SQL store -/

namespace SqlWallet

/-- `UPDATE proof SET mint_url = :new_mint_url WHERE mint_url = :old_mint_url` on a row. -/
def ProofRow.moveUrl (oldMintUrl newMintUrl : String) (row : ProofRow) : ProofRow :=
  if row.mintUrl = .text oldMintUrl then { row with mintUrl := .text newMintUrl } else row

/-- The same statement on a row of `mint_quote`. -/
def MintQuoteRow.moveUrl (oldMintUrl newMintUrl : String) (row : MintQuoteRow) : MintQuoteRow :=
  if row.mintUrl = .text oldMintUrl then { row with mintUrl := .text newMintUrl } else row

theorem ProofRow.moveUrl_y (oldMintUrl newMintUrl : String) (row : ProofRow) :
    (row.moveUrl oldMintUrl newMintUrl).y = row.y := by
  unfold moveUrl
  split <;> rfl

theorem MintQuoteRow.moveUrl_id (oldMintUrl newMintUrl : String) (row : MintQuoteRow) :
    (row.moveUrl oldMintUrl newMintUrl).id = row.id := by
  unfold moveUrl
  split <;> rfl

/-- `SQLWalletDatabase::update_mint_url`. -/
def Db.updateMintUrl (oldMintUrl newMintUrl : String) (db : Db) : Db :=
  { db with
    mintQuotes := db.mintQuotes.update (MintQuoteRow.moveUrl oldMintUrl newMintUrl)
      (MintQuoteRow.moveUrl_id oldMintUrl newMintUrl)
    proofs := db.proofs.update (ProofRow.moveUrl oldMintUrl newMintUrl)
      (ProofRow.moveUrl_y oldMintUrl newMintUrl) }

end SqlWallet

namespace MintUrls

/-! ## Exactly the records of the old url -/

/-- A proof after its mint has moved. -/
def movedProof (oldMintUrl newMintUrl : String) (info : ProofInfo) : ProofInfo :=
  if info.mintUrl = oldMintUrl then info.setMintUrl newMintUrl else info

/-- A quote after its mint has moved. -/
def movedQuote (oldMintUrl newMintUrl : String) (quote : SqlWallet.MintQuote) :
    SqlWallet.MintQuote :=
  if quote.mintUrl = oldMintUrl then quote.setMintUrl newMintUrl else quote

/-- The redb store holds every record under its key as before, but for the url. -/
structure RedbMoves (oldMintUrl newMintUrl : String) (unixTime : Nat) (s : RedbRecords) :
    Prop where
  proofs : ∀ y, (s.updateMintUrl oldMintUrl newMintUrl unixTime).proofs.find? y =
    (s.proofs.find? y).map (movedProof oldMintUrl newMintUrl)
  mintQuotes : ∀ id, (s.updateMintUrl oldMintUrl newMintUrl unixTime).mintQuotes.find? id =
    (s.mintQuotes.find? id).map (movedQuote oldMintUrl newMintUrl)

/-- The SQL store holds every row as before, but for the url, and what its rows encode has moved. -/
structure SqlMoves (env : SqlWallet.RowEnv) (oldMintUrl newMintUrl : String) (db : SqlWallet.Db) :
    Prop where
  proofRows : ∀ y, (db.updateMintUrl oldMintUrl newMintUrl).proofs.find? y =
    (db.proofs.find? y).map (SqlWallet.ProofRow.moveUrl oldMintUrl newMintUrl)
  mintQuoteRows : ∀ id, (db.updateMintUrl oldMintUrl newMintUrl).mintQuotes.find? id =
    (db.mintQuotes.find? id).map (SqlWallet.MintQuoteRow.moveUrl oldMintUrl newMintUrl)
  proofs : ∀ t : ProofTable, Encoded (SqlWallet.proofRow env) t db.proofs →
    ∃ t' : ProofTable, Encoded (SqlWallet.proofRow env) t'
        (db.updateMintUrl oldMintUrl newMintUrl).proofs ∧
      ∀ y, t'.find? y = (t.find? y).map (movedProof oldMintUrl newMintUrl)
  mintQuotes : ∀ t : Table SqlWallet.MintQuote.id,
    Encoded (SqlWallet.MintQuote.toRow env.casing) t db.mintQuotes →
      ∃ t' : Table SqlWallet.MintQuote.id, Encoded (SqlWallet.MintQuote.toRow env.casing) t'
          (db.updateMintUrl oldMintUrl newMintUrl).mintQuotes ∧
        ∀ id, t'.find? id = (t.find? id).map (movedQuote oldMintUrl newMintUrl)

section Moves

variable (env : SqlWallet.RowEnv) (oldMintUrl newMintUrl : String)

theorem movedProof_y (info : ProofInfo) : (movedProof oldMintUrl newMintUrl info).y = info.y := by
  unfold movedProof
  split <;> rfl

theorem movedQuote_id (quote : SqlWallet.MintQuote) :
    (movedQuote oldMintUrl newMintUrl quote).id = quote.id := by
  unfold movedQuote
  split <;> rfl

theorem moveUrl_proofRow (info : ProofInfo) :
    (SqlWallet.proofRow env info).moveUrl oldMintUrl newMintUrl =
      SqlWallet.proofRow env (movedProof oldMintUrl newMintUrl info) := by
  unfold SqlWallet.ProofRow.moveUrl movedProof
  change (if SqlWallet.Value.text info.mintUrl = .text oldMintUrl then _ else _) = _
  by_cases h : info.mintUrl = oldMintUrl
  · rw [if_pos h, if_pos (congrArg SqlWallet.Value.text h)]
    rfl
  · rw [if_neg h, if_neg fun h' => h (SqlWallet.Value.text.inj h')]

theorem moveUrl_toRow (quote : SqlWallet.MintQuote) :
    (quote.toRow env.casing).moveUrl oldMintUrl newMintUrl =
      (movedQuote oldMintUrl newMintUrl quote).toRow env.casing := by
  unfold SqlWallet.MintQuoteRow.moveUrl movedQuote
  change (if SqlWallet.Value.text quote.mintUrl = .text oldMintUrl then _ else _) = _
  by_cases h : quote.mintUrl = oldMintUrl
  · rw [if_pos h, if_pos (congrArg SqlWallet.Value.text h)]
    rfl
  · rw [if_neg h, if_neg fun h' => h (SqlWallet.Value.text.inj h')]

/-- Both statements of the SQL store move what they should. -/
theorem sqlMoves (db : SqlWallet.Db) : SqlMoves env oldMintUrl newMintUrl db where
  proofRows := Table.find?_update (SqlWallet.ProofRow.moveUrl_y oldMintUrl newMintUrl)
  mintQuoteRows := Table.find?_update (SqlWallet.MintQuoteRow.moveUrl_id oldMintUrl newMintUrl)
  proofs := by
    intro t ht
    exact ⟨t.update _ (movedProof_y oldMintUrl newMintUrl),
      ht.update _ (SqlWallet.ProofRow.moveUrl_y oldMintUrl newMintUrl)
        fun info _ => moveUrl_proofRow env oldMintUrl newMintUrl info,
      Table.find?_update _⟩
  mintQuotes := by
    intro t ht
    exact ⟨t.update _ (movedQuote_id oldMintUrl newMintUrl),
      ht.update _ (SqlWallet.MintQuoteRow.moveUrl_id oldMintUrl newMintUrl)
        fun quote _ => moveUrl_toRow env oldMintUrl newMintUrl quote,
      Table.find?_update _⟩

theorem matchesConditions_mintUrl (info : ProofInfo) :
    info.matchesConditions ⟨some oldMintUrl, none, none, none⟩ =
      decide (info.mintUrl = oldMintUrl) := by
  simp [ProofInfo.matchesConditions, eq_comm, beq_eq_decide]

/-- The proofs of a redb store are moved as they should. -/
theorem find?_updateProofsUrl (t : ProofTable) (y : PublicKey) :
    (RedbRecords.updateProofsUrl oldMintUrl newMintUrl t).find? y =
      (t.find? y).map (movedProof oldMintUrl newMintUrl) := by
  have hrewrite := Table.find?_rewrite (t := t) (f := fun info => info.setMintUrl newMintUrl)
    (p := fun info => info.matchesConditions ⟨some oldMintUrl, none, none, none⟩)
    (fun _ => rfl) y
  simp only [matchesConditions_mintUrl, decide_eq_true_eq] at hrewrite
  rw [RedbRecords.updateProofsUrl]
  simp only [matchesConditions_mintUrl]
  split
  next h =>
    rw [h] at hrewrite
    exact hrewrite
  next =>
    rw [redbUpdateProofs, ProofTable.removeAll, Table.delete_eq_self (by simp)]
    exact hrewrite

theorem filterMap_ite {α β : Type} (p : α → Prop) [DecidablePred p] (f : α → β) (xs : List α) :
    (xs.filterMap fun x => if p x then some (f x) else none) =
      (xs.filter fun x => decide (p x)).map f := by
  induction xs with
  | nil => rfl
  | cons x rest ih =>
      rw [List.filterMap_cons]
      by_cases h : p x
      · rw [if_pos h, List.filter_cons_of_pos (by simpa using h), List.map_cons]
        exact congrArg (f x :: ·) ih
      · rw [if_neg h, List.filter_cons_of_neg (by simpa using h)]
        exact ih

/-- The quotes of a redb store are given the new url when they have expired. -/
theorem find?_updateQuotesUrl (unixTime : Nat) (t : Table SqlWallet.MintQuote.id) (id : String) :
    (RedbRecords.updateQuotesUrl newMintUrl unixTime t).find? id =
      (t.find? id).map fun quote =>
        if quote.expiry < unixTime then quote.setMintUrl newMintUrl else quote := by
  have hrewrite := Table.find?_rewrite (t := t) (f := fun quote => quote.setMintUrl newMintUrl)
    (p := fun quote => quote.expiry < unixTime) (fun _ => rfl) id
  simp only [decide_eq_true_eq] at hrewrite
  rw [← hrewrite, RedbRecords.updateQuotesUrl, filterMap_ite]

/-- A quote is given the new url when it should be. -/
theorem setMintUrl_eq_movedQuote_iff (unixTime : Nat) (quote : SqlWallet.MintQuote) :
    (if quote.expiry < unixTime then quote.setMintUrl newMintUrl else quote) =
        movedQuote oldMintUrl newMintUrl quote ↔
      (quote.expiry < unixTime → quote.mintUrl = oldMintUrl ∨ quote.mintUrl = newMintUrl) ∧
      (unixTime ≤ quote.expiry → quote.mintUrl = oldMintUrl → oldMintUrl = newMintUrl) := by
  have hset (url : String) : quote.setMintUrl url = quote ↔ quote.mintUrl = url := by
    obtain ⟨id, mintUrl, _⟩ := quote
    simp [SqlWallet.MintQuote.setMintUrl, eq_comm]
  unfold movedQuote
  by_cases hexpiry : quote.expiry < unixTime
  · rw [if_pos hexpiry, forall_prop_of_true hexpiry, forall_prop_of_false (by omega)]
    by_cases hurl : quote.mintUrl = oldMintUrl
    · simp [hurl]
    · rw [if_neg hurl, hset]
      simp [hurl]
  · rw [if_neg hexpiry, forall_prop_of_false hexpiry, forall_prop_of_true (by omega)]
    by_cases hurl : quote.mintUrl = oldMintUrl
    · rw [if_pos hurl, eq_comm, hset, hurl]
      simp
    · rw [if_neg hurl]
      simp [hurl]

theorem redbMoves_iff (unixTime : Nat) (s : RedbRecords) :
    RedbMoves oldMintUrl newMintUrl unixTime s ↔ ∀ quote ∈ s.mintQuotes.rows,
      (quote.expiry < unixTime → quote.mintUrl = oldMintUrl ∨ quote.mintUrl = newMintUrl) ∧
      (unixTime ≤ quote.expiry → quote.mintUrl = oldMintUrl → oldMintUrl = newMintUrl) := by
  constructor
  · intro h quote hquote
    have hmoved := h.mintQuotes quote.id
    have hfind : s.mintQuotes.find? quote.id = some quote :=
      Table.find?_eq_some.mpr ⟨hquote, rfl⟩
    change (RedbRecords.updateQuotesUrl _ _ _).find? _ = _ at hmoved
    rw [find?_updateQuotesUrl, hfind, Option.map_some, Option.map_some, Option.some.injEq] at hmoved
    exact (setMintUrl_eq_movedQuote_iff _ _ _ _).mp hmoved
  · intro h
    refine ⟨find?_updateProofsUrl oldMintUrl newMintUrl s.proofs, fun id => ?_⟩
    change (RedbRecords.updateQuotesUrl _ _ _).find? _ = _
    rw [find?_updateQuotesUrl]
    apply Option.map_congr
    intro quote hquote
    exact (setMintUrl_eq_movedQuote_iff _ _ _ _).mpr (h quote (Table.find?_eq_some.mp hquote).1)

end Moves

/-- The SQL store moves exactly the records of the old url, and the redb store does if the quotes
that have expired are those of the old url. -/
theorem updateMintUrl_moves_iff (env : SqlWallet.RowEnv) (oldMintUrl newMintUrl : String)
    (unixTime : Nat) (s : RedbRecords) (db : SqlWallet.Db) :
    RedbMoves oldMintUrl newMintUrl unixTime s ∧ SqlMoves env oldMintUrl newMintUrl db ↔
      ∀ quote ∈ s.mintQuotes.rows,
        (quote.expiry < unixTime → quote.mintUrl = oldMintUrl ∨ quote.mintUrl = newMintUrl) ∧
        (unixTime ≤ quote.expiry → quote.mintUrl = oldMintUrl → oldMintUrl = newMintUrl) := by
  rw [and_iff_left (sqlMoves env oldMintUrl newMintUrl db)]
  exact redbMoves_iff oldMintUrl newMintUrl unixTime s

/-- A store with one quote of a third mint. -/
def otherMintQuote : RedbRecords :=
  ⟨.empty, ⟨[SqlWallet.sampleMintQuote], List.nodup_singleton _⟩⟩

/-- A quote that expired long ago is moved to a mint that it is not of. -/
theorem not_updateMintUrl_moves :
    (otherMintQuote.updateMintUrl "https://old.example" "https://new.example"
        1800000000).mintQuotes.rows.map SqlWallet.MintQuote.mintUrl = ["https://new.example"] ∧
    ¬ ∀ (env : SqlWallet.RowEnv) (oldMintUrl newMintUrl : String) (unixTime : Nat)
      (s : RedbRecords) (db : SqlWallet.Db),
      RedbMoves oldMintUrl newMintUrl unixTime s ∧ SqlMoves env oldMintUrl newMintUrl db := by
  refine ⟨by decide, fun h => ?_⟩
  obtain ⟨hredb, -⟩ := h SqlWallet.sampleEnv "https://old.example" "https://new.example" 1800000000
    otherMintQuote .empty
  obtain ⟨hexpired, -⟩ := (redbMoves_iff _ _ _ _).mp hredb SqlWallet.sampleMintQuote
    List.mem_cons_self
  have hurl := hexpired (by decide)
  revert hurl
  decide

end MintUrls

end Cdk
