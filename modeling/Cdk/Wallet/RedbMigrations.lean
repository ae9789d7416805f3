import Cdk.Lib.Redo
import Cdk.Lib.Runs
import Cdk.Amount
import Cdk.Wallet.Texts
import Mathlib.Data.Finset.Lattice.Lemmas

/-!
# Migrations of the redb wallet store

Opening a store of an older version runs the migrations from that version on.
Each of them commits on its own, and the version is written in a last
transaction, so an attempt that is interrupted is followed by one that starts
again from the old version on tables that are partly migrated.
-/

namespace Cdk

open Lib
open Std (ExtTreeMap)

/-! ## Quotes of the first versions -/

namespace Redb

structure V0MintQuote where
  id : String
  mintUrl : String
  amount : Amount
  unit : CurrencyUnit
  request : String
  paid : Bool
  expiry : Nat
deriving DecidableEq, Repr

structure V1MintQuote where
  id : String
  mintUrl : String
  amount : Amount
  unit : CurrencyUnit
  request : String
  state : MintQuoteState
  expiry : Nat
deriving DecidableEq, Repr

structure V0MeltQuote where
  id : String
  unit : CurrencyUnit
  amount : Amount
  request : String
  feeReserve : Amount
  paid : Bool
  expiry : Nat
deriving DecidableEq, Repr

structure V1MeltQuote where
  id : String
  unit : CurrencyUnit
  amount : Amount
  request : String
  feeReserve : Amount
  state : MeltQuoteState
  expiry : Nat
  paymentPreimage : Option String
deriving DecidableEq, Repr

/-- `V1MintQuote::from`. -/
def V0MintQuote.toV1 (quote : V0MintQuote) : V1MintQuote :=
  ⟨quote.id, quote.mintUrl, quote.amount, quote.unit, quote.request,
    if quote.paid then .paid else .unpaid, quote.expiry⟩

/-- `V1MeltQuote::from`. -/
def V0MeltQuote.toV1 (quote : V0MeltQuote) : V1MeltQuote :=
  ⟨quote.id, quote.unit, quote.amount, quote.request, quote.feeReserve,
    if quote.paid then .paid else .unpaid, quote.expiry, none⟩

/-- The texts of quotes as `serde_json` reads and writes them. -/
structure QuoteJson where
  mintQuoteFromStr : String → Option V0MintQuote
  mintQuoteToString : V1MintQuote → String
  meltQuoteFromStr : String → Option V0MeltQuote
  meltQuoteToString : V1MeltQuote → String

/-- What the migrations call outside the store. -/
structure MigrationEnv where
  casing : Casing
  json : QuoteJson

/-! ## The store -/

/-- A table of redb, which is read in the order of its keys. -/
abbrev RedbTable (κ ν : Type) [Ord κ] := ExtTreeMap κ ν compare

/-- The tables that a migration reads or writes, and the version. The values of a key of the
multimap are a set. -/
structure WalletDb where
  dbVersion : Option Nat
  mintQuotes : RedbTable String String
  meltQuotes : RedbTable String String
  mints : RedbTable String String
  mintKeysets : RedbTable String (Finset (List UInt8))
  mintKeys : RedbTable String String
  keysets : RedbTable (List UInt8) String
  keysetU32Mapping : RedbTable Nat String
  keysetCounter : RedbTable String Nat

inductive Error where
  | invalidUrl
  | duplicate
  | unknownDatabaseVersion
deriving DecidableEq, Repr

def databaseVersion : Nat := 4

/-! ## The transactions -/

/-- The loop of the migrations of quotes: a quote that is read is written in the new form, any
other row is removed. -/
def migrateQuotes {V0 V1 : Type} (fromStr : String → Option V0) (into : V0 → V1)
    (toText : V1 → String) (quotes : RedbTable String String) : RedbTable String String :=
  quotes.toList.foldl (fun table entry =>
    match fromStr entry.2 with
    | some quote => table.insert entry.1 (toText (into quote))
    | none => table.erase entry.1) quotes

/-- `migrate_mint_quotes_00_to_01`. -/
def migrateMintQuotes00To01 (json : QuoteJson) (quotes : RedbTable String String) :
    RedbTable String String :=
  migrateQuotes json.mintQuoteFromStr V0MintQuote.toV1 json.mintQuoteToString quotes

/-- `migrate_melt_quotes_00_to_01`. -/
def migrateMeltQuotes00To01 (json : QuoteJson) (quotes : RedbTable String String) :
    RedbTable String String :=
  migrateQuotes json.meltQuoteFromStr V0MeltQuote.toV1 json.meltQuoteToString quotes

/-- A round of the loops over mint URLs: the values of a URL move to its normal form, where they
meet what is there already. -/
def moveUrl {ν : Type} (casing : Casing) (meet : Option ν → ν → ν) (table : RedbTable String ν)
    (entry : String × ν) : Outcome Error (RedbTable String ν) := do
  let mintUrl ← Outcome.ofOption .invalidUrl (MintUrl.formatUrl casing entry.1)
  let table := table.erase entry.1
  .ok (table.insert mintUrl (meet table[mintUrl]? entry.2))

/-- `migrate_mints_table_01_to_02`: an insertion overwrites. -/
def migrateMintsTable01To02 (casing : Casing) (mints : RedbTable String String) :
    Outcome Error (RedbTable String String) :=
  mints.toList.foldlM (moveUrl casing fun _ info => info) mints

/-- `migrate_mint_keyset_table_01_to_02`: insertions add to the set of the key. -/
def migrateMintKeysetTable01To02 (casing : Casing)
    (mintKeysets : RedbTable String (Finset (List UInt8))) :
    Outcome Error (RedbTable String (Finset (List UInt8))) :=
  mintKeysets.toList.foldlM (moveUrl casing fun found keysets => found.getD ∅ ∪ keysets) mintKeysets

/-- `Id::from_bytes`, which panics without a version byte. -/
def idFromBytes : List UInt8 → Outcome Error (Option Id)
  | [] => .panic
  | version :: bytes =>
      .ok (if version = 0 ∧ bytes.length = 7 then some (.v1 (BitVec.ofNat 56 (ofBytes bytes)))
        else if version = 1 ∧ bytes.length = 32 then some (.v2 (BitVec.ofNat 256 (ofBytes bytes)))
        else none)

/-- The identifiers of the two tables of keysets, each once. -/
def keysetIds (mintKeys : RedbTable String String) (keysets : RedbTable (List UInt8) String) :
    Outcome Error (List Id) := do
  let keysetIds ← keysets.keys.mapM idFromBytes
  .ok (mintKeys.keys.filterMap Id.fromStr ++ keysetIds.filterMap id).dedup

/-- A round of the loop of `migrate_02_to_03`, with the flag `duplicate`. -/
def addU32Mapping (s : RedbTable Nat String × Bool) (id : Id) : RedbTable Nat String × Bool :=
  (s.1.insert id.toU32 id.toText, s.2 || (s.1[id.toU32]?).isSome)

/-- `migrate_02_to_03`. -/
def migrate02To03 (mintKeys : RedbTable String String) (keysets : RedbTable (List UInt8) String)
    (mapping : RedbTable Nat String) : Outcome Error (RedbTable Nat String) := do
  let ids ← keysetIds mintKeys keysets
  let result := ids.foldl addU32Mapping (mapping, false)
  if result.2 then .err .duplicate else .ok result.1

/-- A round of the loop of `migrate_03_to_04`; the addition panics on overflow. -/
def bumpCounter (table : RedbTable String Nat) (entry : String × Nat) :
    Outcome Error (RedbTable String Nat) :=
  if entry.2 + 1 < 2 ^ 32 then .ok (table.insert entry.1 (entry.2 + 1)) else .panic

/-- `migrate_03_to_04`. -/
def migrate03To04 (counters : RedbTable String Nat) : Outcome Error (RedbTable String Nat) :=
  (counters.toList.filter fun entry => 0 < entry.2).foldlM bumpCounter counters

/-! ## Opening a store -/

/-- The transactions of `WalletRedbDatabase::new`. -/
inductive Transaction where
  | mintQuotes
  | meltQuotes
  | mints
  | mintKeysets
  | keysetU32Mapping
  | keysetCounter
  | dbVersion
deriving DecidableEq, Repr

/-- The tables that a transaction is about. -/
def Tables : Transaction → Type
  | .mintQuotes => RedbTable String String
  | .meltQuotes => RedbTable String String
  | .mints => RedbTable String String
  | .mintKeysets => RedbTable String (Finset (List UInt8))
  | .keysetU32Mapping =>
      RedbTable String String × RedbTable (List UInt8) String × RedbTable Nat String
  | .keysetCounter => RedbTable String Nat
  | .dbVersion => Option Nat

namespace WalletDb

def tables : Components WalletDb Tables where
  get
    | .mintQuotes, db => db.mintQuotes
    | .meltQuotes, db => db.meltQuotes
    | .mints, db => db.mints
    | .mintKeysets, db => db.mintKeysets
    | .keysetU32Mapping, db => (db.mintKeys, db.keysets, db.keysetU32Mapping)
    | .keysetCounter, db => db.keysetCounter
    | .dbVersion, db => db.dbVersion
  set
    | .mintQuotes, c, db => { db with mintQuotes := c }
    | .meltQuotes, c, db => { db with meltQuotes := c }
    | .mints, c, db => { db with mints := c }
    | .mintKeysets, c, db => { db with mintKeysets := c }
    | .keysetU32Mapping, c, db =>
        { db with mintKeys := c.1, keysets := c.2.1, keysetU32Mapping := c.2.2 }
    | .keysetCounter, c, db => { db with keysetCounter := c }
    | .dbVersion, c, db => { db with dbVersion := c }
  get_set_self i _ _ := by cases i <;> rfl
  get_set_of_ne i j _ _ h := by
    cases i <;> cases j <;> first | rfl | exact (h rfl).elim

end WalletDb

/-- What a transaction makes of its tables. -/
def transact (env : MigrationEnv) : (t : Transaction) → Tables t → Outcome Error (Tables t)
  | .mintQuotes, quotes => .ok (migrateMintQuotes00To01 env.json quotes)
  | .meltQuotes, quotes => .ok (migrateMeltQuotes00To01 env.json quotes)
  | .mints, mints => migrateMintsTable01To02 env.casing mints
  | .mintKeysets, mintKeysets => migrateMintKeysetTable01To02 env.casing mintKeysets
  | .keysetU32Mapping, (mintKeys, keysets, mapping) => do
      let mapping ← migrate02To03 mintKeys keysets mapping
      .ok (mintKeys, keysets, mapping)
  | .keysetCounter, counters => migrate03To04 counters
  | .dbVersion, _ => .ok (some databaseVersion)

/-- The transactions that opening a store of a version runs. -/
def transactions : Option Nat → List Transaction
  | none => [.dbVersion]
  | some 0 => [.mintQuotes, .meltQuotes, .mints, .mintKeysets, .keysetU32Mapping, .keysetCounter,
      .dbVersion]
  | some 1 => [.mints, .mintKeysets, .keysetU32Mapping, .keysetCounter, .dbVersion]
  | some 2 => [.keysetU32Mapping, .keysetCounter, .dbVersion]
  | some 3 => [.keysetCounter, .dbVersion]
  | some _ => []

/-- `WalletRedbDatabase::new` on a store. -/
def openDb (env : MigrationEnv) (db : WalletDb) : Outcome Error WalletDb :=
  if db.dbVersion.all (· ≤ databaseVersion) then
    WalletDb.tables.commitAll (transact env) (transactions db.dbVersion) db
  else .err .unknownDatabaseVersion

/-- The store after an attempt to open it that was interrupted after a number of commits, or that
failed before. -/
def crash (env : MigrationEnv) (db : WalletDb) (commits : Nat) : WalletDb :=
  WalletDb.tables.commitSome (transact env) (transactions db.dbVersion) commits db

/-! ## Running a transaction again -/

section Loops

variable {casing : Casing} {ν : Type} {meet : Option ν → ν → ν}

/-- Removing the keys of a list. -/
theorem getElem?_eraseKeys (entries : List (String × ν)) (table : RedbTable String ν) (k : String) :
    (entries.foldl (fun table entry => table.erase entry.1) table)[k]? =
      if k ∈ entries.map Prod.fst then none else table[k]? := by
  induction entries generalizing table with
  | nil => simp
  | cons entry rest ih =>
      rw [List.foldl_cons, ih, ExtTreeMap.getElem?_erase, List.map_cons]
      by_cases hrest : k ∈ rest.map Prod.fst
      · rw [if_pos hrest, if_pos (List.mem_cons_of_mem _ hrest)]
      · rw [if_neg hrest]
        refine if_congr ?_ rfl rfl
        rw [List.mem_cons, or_iff_left hrest, Std.compare_eq_iff_eq, eq_comm]

/-- Rows that are read as no quote are all removed. -/
theorem migrateQuotes_eq_empty {V0 V1 : Type} {fromStr : String → Option V0} {into : V0 → V1}
    {toText : V1 → String} {quotes : RedbTable String String}
    (h : ∀ entry ∈ quotes.toList, fromStr entry.2 = none) :
    migrateQuotes fromStr into toText quotes = ∅ := by
  have herase : migrateQuotes fromStr into toText quotes =
      quotes.toList.foldl (fun table entry => table.erase entry.1) quotes := by
    apply List.foldl_ext
    intro table entry hentry
    rw [h entry hentry]
  rw [herase]
  apply ExtTreeMap.ext_getElem?
  intro k
  rw [getElem?_eraseKeys, ExtTreeMap.getElem?_empty]
  split
  next => rfl
  next hk =>
    cases hget : quotes[k]? with
    | none => rfl
    | some text =>
        have hmem := ExtTreeMap.mem_toList_iff_getElem?_eq_some.mpr hget
        exact absurd (List.mem_map_of_mem (f := Prod.fst) hmem) hk

/-- A URL that is its own normal form stays where it is. -/
theorem moveUrl_self (hmeet : ∀ v, meet none v = v) {table : RedbTable String ν}
    {entry : String × ν} (hget : table[entry.1]? = some entry.2)
    (hnormal : MintUrl.formatUrl casing entry.1 = some entry.1) :
    moveUrl casing meet table entry = .ok table := by
  simp only [moveUrl, hnormal, Outcome.ofOption_some, Outcome.bind_ok, Outcome.ok.injEq]
  apply ExtTreeMap.ext_getElem?
  intro k
  rw [ExtTreeMap.getElem?_insert, ExtTreeMap.getElem?_erase_self, hmeet,
    ExtTreeMap.getElem?_erase]
  split
  next hk =>
    rw [Std.compare_eq_iff_eq] at hk
    rw [← hk, hget]
  next => rfl

/-- The loop changes nothing where all URLs are normal forms. -/
theorem moveUrls_self (hmeet : ∀ v, meet none v = v) {table : RedbTable String ν}
    {entries : List (String × ν)} (hget : ∀ entry ∈ entries, table[entry.1]? = some entry.2)
    (hnormal : ∀ entry ∈ entries, MintUrl.formatUrl casing entry.1 = some entry.1) :
    entries.foldlM (moveUrl casing meet) table = .ok table := by
  induction entries with
  | nil => rfl
  | cons entry rest ih =>
      obtain ⟨hentry, hrest⟩ := List.forall_mem_cons.mp hget
      obtain ⟨hentryNormal, hrestNormal⟩ := List.forall_mem_cons.mp hnormal
      rw [List.foldlM_cons, moveUrl_self hmeet hentry hentryNormal, Outcome.bind_ok]
      exact ih hrest hrestNormal

/-- What the loop leaves are keys that it did not visit and normal forms of those that it did. -/
theorem mem_of_moveUrls {entries : List (String × ν)} {table table' : RedbTable String ν}
    (h : entries.foldlM (moveUrl casing meet) table = .ok table') {k : String} (hk : k ∈ table') :
    k ∈ table ∧ k ∉ entries.map Prod.fst ∨
      ∃ entry ∈ entries, MintUrl.formatUrl casing entry.1 = some k := by
  induction entries generalizing table with
  | nil =>
      cases h
      exact .inl ⟨hk, by simp⟩
  | cons entry rest ih =>
      simp only [List.foldlM_cons, moveUrl, Outcome.bind_eq_ok, Outcome.ofOption_eq_ok,
        Outcome.ok.injEq] at h
      obtain ⟨_, ⟨mintUrl, hurl, rfl⟩, h⟩ := h
      rcases ih h with ⟨hmem, hrest⟩ | ⟨entry', hentry', hformat⟩
      · rw [ExtTreeMap.mem_insert, ExtTreeMap.mem_erase] at hmem
        rcases hmem with hnew | ⟨hne, hold⟩
        · rw [Std.compare_eq_iff_eq] at hnew
          exact .inr ⟨entry, by simp, hnew ▸ hurl⟩
        · rw [Ne, Std.compare_eq_iff_eq] at hne
          refine .inl ⟨hold, ?_⟩
          rw [List.map_cons, List.mem_cons, not_or]
          exact ⟨Ne.symm hne, hrest⟩
      · exact .inr ⟨entry', by simp [hentry'], hformat⟩

/-- Where the normal forms are normal forms of themselves, moving the URLs of a table again changes
nothing. -/
theorem moveUrls_again (hmeet : ∀ v, meet none v = v) {table table' : RedbTable String ν}
    (hnormal : ∀ entry ∈ table.toList, ∀ mintUrl, MintUrl.formatUrl casing entry.1 = some mintUrl →
      MintUrl.formatUrl casing mintUrl = some mintUrl)
    (h : table.toList.foldlM (moveUrl casing meet) table = .ok table') :
    table'.toList.foldlM (moveUrl casing meet) table' = .ok table' := by
  apply moveUrls_self hmeet
  · intro entry hentry
    exact ExtTreeMap.mem_toList_iff_getElem?_eq_some.mp hentry
  · intro entry hentry
    have hget := ExtTreeMap.mem_toList_iff_getElem?_eq_some.mp hentry
    have hmem : entry.1 ∈ table' :=
      ExtTreeMap.mem_iff_isSome_getElem?.mpr (Option.isSome_of_eq_some hget)
    rcases mem_of_moveUrls h hmem with ⟨hold, hvisited⟩ | ⟨source, hsource, hformat⟩
    · obtain ⟨v, hv⟩ := Option.isSome_iff_exists.mp (ExtTreeMap.mem_iff_isSome_getElem?.mp hold)
      have hin := ExtTreeMap.mem_toList_iff_getElem?_eq_some.mpr hv
      exact absurd (List.mem_map_of_mem (f := Prod.fst) hin) hvisited
    · exact hnormal source hsource _ hformat

end Loops

section CounterLoop

variable {entries : List (String × Nat)} {table table' : RedbTable String Nat}

theorem exists_bumpCounters (h : ∀ entry ∈ entries, entry.2 + 1 < 2 ^ 32) :
    ∃ table', entries.foldlM bumpCounter table = .ok table' := by
  induction entries generalizing table with
  | nil => exact ⟨table, rfl⟩
  | cons entry rest ih =>
      obtain ⟨hentry, hrest⟩ := List.forall_mem_cons.mp h
      rw [List.foldlM_cons, bumpCounter, if_pos hentry]
      exact ih hrest

/-- Each visited counter is one more than its entry. -/
theorem getElem?_bumpCounters (hnodup : (entries.map Prod.fst).Nodup)
    (h : entries.foldlM bumpCounter table = .ok table') :
    (∀ entry ∈ entries, table'[entry.1]? = some (entry.2 + 1)) ∧
      ∀ k ∉ entries.map Prod.fst, table'[k]? = table[k]? := by
  induction entries generalizing table with
  | nil =>
      cases h
      exact ⟨by simp, fun _ _ => rfl⟩
  | cons entry rest ih =>
      obtain ⟨hfresh, hrest⟩ := List.nodup_cons.mp hnodup
      simp only [List.foldlM_cons, bumpCounter, Outcome.bind_eq_ok] at h
      obtain ⟨next, hnext, h⟩ := h
      split at hnext
      next =>
        cases hnext
        obtain ⟨hin, hout⟩ := ih hrest h
        refine ⟨List.forall_mem_cons.mpr ⟨?_, hin⟩, ?_⟩
        · rw [hout _ hfresh, ExtTreeMap.getElem?_insert_self]
        · intro k hk
          obtain ⟨hne, hk⟩ := not_or.mp (mt List.mem_cons.mpr hk)
          have hcompare : compare entry.1 k ≠ .eq := fun h =>
            hne (Std.compare_eq_iff_eq.mp h).symm
          rw [hout k hk, ExtTreeMap.getElem?_insert, if_neg hcompare]
      next => cases hnext

theorem nodup_keys {ν : Type} (table : RedbTable String ν) :
    (table.toList.map Prod.fst).Nodup := by
  rw [List.Nodup, List.pairwise_map]
  refine table.distinct_keys_toList.imp ?_
  intro a b hne heq
  exact hne (Std.compare_eq_iff_eq.mpr heq)

/-- The loop raises the positive counters by one and leaves the others. -/
theorem getElem?_migrate03To04 (h : migrate03To04 table = .ok table') (k : String) :
    table'[k]? = (table[k]?).map fun counter => if 0 < counter then counter + 1 else counter := by
  have hnodup : ((table.toList.filter fun entry => 0 < entry.2).map Prod.fst).Nodup :=
    (nodup_keys table).sublist (List.filter_sublist.map _)
  obtain ⟨hin, hout⟩ := getElem?_bumpCounters hnodup h
  cases hget : table[k]? with
  | none =>
      rw [hout k, hget, Option.map_none]
      intro hmem
      obtain ⟨entry, hentry, rfl⟩ := List.mem_map.mp hmem
      have hsome := ExtTreeMap.mem_toList_iff_getElem?_eq_some.mp (List.mem_filter.mp hentry).1
      rw [hget] at hsome
      cases hsome
  | some counter =>
      rw [Option.map_some]
      have hmem := ExtTreeMap.mem_toList_iff_getElem?_eq_some.mpr hget
      split
      next hpos => exact hin (k, counter) (List.mem_filter.mpr ⟨hmem, by simpa using hpos⟩)
      next hzero =>
        rw [hout k, hget]
        intro hvisited
        obtain ⟨⟨_, counter'⟩, hentry, rfl⟩ := List.mem_map.mp hvisited
        obtain ⟨hentry, hpos⟩ := List.mem_filter.mp hentry
        have hsome := ExtTreeMap.mem_toList_iff_getElem?_eq_some.mp hentry
        rw [hget, Option.some.injEq] at hsome
        rw [hsome] at hzero
        exact hzero (by simpa using hpos)

theorem exists_migrate03To04 (h : ∀ entry ∈ table.toList, 0 < entry.2 → entry.2 + 1 < 2 ^ 32) :
    ∃ table', migrate03To04 table = .ok table' := by
  apply exists_bumpCounters
  intro entry hentry
  obtain ⟨hentry, hpos⟩ := List.mem_filter.mp hentry
  exact h entry hentry (by simpa using hpos)

end CounterLoop

/-- The tables of a transaction for which it can be run again on what it has written. -/
def Repeatable (env : MigrationEnv) : (t : Transaction) → Tables t → Prop
  | .mintQuotes, quotes => ∀ entry ∈ quotes.toList, env.json.mintQuoteFromStr entry.2 = none
  | .meltQuotes, quotes => ∀ entry ∈ quotes.toList, env.json.meltQuoteFromStr entry.2 = none
  | .mints, mints => ∀ entry ∈ mints.toList, ∀ mintUrl,
      MintUrl.formatUrl env.casing entry.1 = some mintUrl →
      MintUrl.formatUrl env.casing mintUrl = some mintUrl
  | .mintKeysets, mintKeysets => ∀ entry ∈ mintKeysets.toList, ∀ mintUrl,
      MintUrl.formatUrl env.casing entry.1 = some mintUrl →
      MintUrl.formatUrl env.casing mintUrl = some mintUrl
  | .keysetU32Mapping, (mintKeys, keysets, _) => keysetIds mintKeys keysets = .ok []
  | .keysetCounter, counters => ∀ entry ∈ counters.toList, 0 < entry.2 → entry.2 + 2 < 2 ^ 32
  | .dbVersion, _ => True

/-- No counter of the first table is missing or larger than in the second one. -/
def CountersLe (a b : RedbTable String Nat) : Prop :=
  ∀ (id : String) (counter : Nat), a[id]? = some counter →
    ∃ counter', b[id]? = some counter' ∧ counter ≤ counter'

/-- The tables of a transaction are the same, but counters may grow. -/
def Keeps : (t : Transaction) → Tables t → Tables t → Prop
  | .keysetCounter, a, b => CountersLe a b
  | .mintQuotes, a, b => a = b
  | .meltQuotes, a, b => a = b
  | .mints, a, b => a = b
  | .mintKeysets, a, b => a = b
  | .keysetU32Mapping, a, b => a = b
  | .dbVersion, a, b => a = b

theorem Keeps.refl (t : Transaction) (a : Tables t) : Keeps t a a := by
  cases t with
  | keysetCounter => exact fun _ counter h => ⟨counter, h, le_rfl⟩
  | _ => rfl

theorem Keeps.trans {t : Transaction} {a b c : Tables t} (hab : Keeps t a b) (hbc : Keeps t b c) :
    Keeps t a c := by
  cases t with
  | keysetCounter =>
      intro id counter h
      obtain ⟨counter', h', hle⟩ := hab id counter h
      obtain ⟨counter'', h'', hle'⟩ := hbc id counter' h'
      exact ⟨counter'', h'', hle.trans hle'⟩
  | _ => exact Eq.trans hab hbc

/-- Raising the counters again does not overflow when they are two away from the bound. -/
theorem migrate03To04_again {counters counters' : RedbTable String Nat}
    (hbound : ∀ entry ∈ counters.toList, 0 < entry.2 → entry.2 + 2 < 2 ^ 32)
    (h : migrate03To04 counters = .ok counters') :
    ∃ counters'', migrate03To04 counters' = .ok counters'' ∧ CountersLe counters' counters'' := by
  have hbumped := getElem?_migrate03To04 h
  obtain ⟨counters'', hagain⟩ : ∃ counters'', migrate03To04 counters' = .ok counters'' := by
    apply exists_migrate03To04
    rintro ⟨id, counter⟩ hentry hpos
    have hget := ExtTreeMap.mem_toList_iff_getElem?_eq_some.mp hentry
    rw [hbumped, Option.map_eq_some_iff] at hget
    obtain ⟨before, hbefore, hvalue⟩ := hget
    have hroom := hbound (id, before) (ExtTreeMap.mem_toList_iff_getElem?_eq_some.mpr hbefore)
    dsimp only at hroom hpos ⊢
    split at hvalue <;> omega
  refine ⟨counters'', hagain, ?_⟩
  intro id counter hget
  refine ⟨_, (getElem?_migrate03To04 hagain id).trans (congrArg _ hget), ?_⟩
  dsimp only
  split <;> omega

/-- A repeatable transaction keeps its tables when it is run again. -/
theorem transact_again {env : MigrationEnv} {t : Transaction} {c c' : Tables t}
    (hrepeatable : Repeatable env t c) (h : transact env t c = .ok c') :
    ∃ c'', transact env t c' = .ok c'' ∧ Keeps t c' c'' := by
  cases t with
  | mintQuotes =>
      have hempty : c' = (∅ : RedbTable String String) :=
        (Outcome.ok.inj h).symm.trans (migrateQuotes_eq_empty hrepeatable)
      rw [hempty]
      exact ⟨_, rfl, rfl⟩
  | meltQuotes =>
      have hempty : c' = (∅ : RedbTable String String) :=
        (Outcome.ok.inj h).symm.trans (migrateQuotes_eq_empty hrepeatable)
      rw [hempty]
      exact ⟨_, rfl, rfl⟩
  | mints => exact ⟨c', moveUrls_again (fun _ => rfl) hrepeatable h, rfl⟩
  | mintKeysets =>
      exact ⟨c', moveUrls_again (fun v => Finset.empty_union v) hrepeatable h, rfl⟩
  | keysetU32Mapping =>
      obtain ⟨mintKeys, keysets, mapping⟩ := c
      have hids : keysetIds mintKeys keysets = .ok [] := hrepeatable
      have hnone : ∀ mapping, transact env .keysetU32Mapping (mintKeys, keysets, mapping) =
          .ok (mintKeys, keysets, mapping) := by
        intro mapping
        simp [transact, migrate02To03, hids]
      rw [hnone] at h
      cases h
      exact ⟨_, hnone mapping, rfl⟩
  | keysetCounter => exact migrate03To04_again hrepeatable h
  | dbVersion =>
      cases h
      exact ⟨_, rfl, rfl⟩

/-! ## Attempts that are interrupted -/

section Attempts

variable {env : MigrationEnv} {db r : WalletDb}

/-- The version is written last. -/
theorem transactions_eq (version : Option Nat) :
    (transactions version).Nodup ∧ (transactions version = [] ∨
      ∃ ts, transactions version = ts ++ [.dbVersion] ∧ .dbVersion ∉ ts) := by
  match version with
  | none => exact ⟨by decide, .inr ⟨[], rfl, by decide⟩⟩
  | some 0 => exact ⟨by decide, .inr ⟨[.mintQuotes, .meltQuotes, .mints, .mintKeysets,
      .keysetU32Mapping, .keysetCounter], rfl, by decide⟩⟩
  | some 1 => exact ⟨by decide, .inr ⟨[.mints, .mintKeysets, .keysetU32Mapping, .keysetCounter],
      rfl, by decide⟩⟩
  | some 2 => exact ⟨by decide, .inr ⟨[.keysetU32Mapping, .keysetCounter], rfl, by decide⟩⟩
  | some 3 => exact ⟨by decide, .inr ⟨[.keysetCounter], rfl, by decide⟩⟩
  | some (_ + 4) => exact ⟨List.nodup_nil, .inl rfl⟩

theorem dbVersion_not_mem_take {version : Option Nat} {n : Nat}
    (h : n < (transactions version).length) : .dbVersion ∉ (transactions version).take n := by
  rcases (transactions_eq version).2 with hnil | ⟨ts, hts, hnot⟩
  · rw [hnil] at h
    exact absurd h (Nat.not_lt_zero n)
  · rw [hts] at h ⊢
    rw [List.length_append, List.length_singleton] at h
    rw [List.take_append_of_le_length (Nat.le_of_lt_succ h)]
    exact fun hmem => hnot (List.mem_of_mem_take hmem)

/-- The condition of an attempt: unless it writes the version, all that it commits can be run
again. -/
def Harmless (env : MigrationEnv) (db : WalletDb) (commits : Nat) : Prop :=
  commits < (transactions db.dbVersion).length →
    ∀ t ∈ (transactions db.dbVersion).take commits, Repeatable env t (WalletDb.tables.get t db)

theorem openDb_eq_ok : openDb env db = .ok r ↔ db.dbVersion.all (· ≤ databaseVersion) = true ∧
    WalletDb.tables.commitAll (transact env) (transactions db.dbVersion) db = .ok r := by
  unfold openDb
  split
  next h => exact (and_iff_right h).symm
  next h =>
    constructor
    · intro herr
      cases herr
    · intro hok
      exact absurd hok.1 h

/-- A store at the current version is opened as it is. -/
theorem openDb_opened (h : openDb env db = .ok r) : openDb env r = .ok r := by
  obtain ⟨hall, hcommit⟩ := openDb_eq_ok.mp h
  obtain ⟨hnodup, hlast⟩ := transactions_eq db.dbVersion
  rcases hlast with hnil | ⟨ts, hts, -⟩
  · have hsame := hcommit
    rw [hnil] at hsame
    cases hsame
    exact h
  · have hin := (Components.get_of_commitAll hnodup hcommit).1 .dbVersion (by simp [hts])
    have hversion : r.dbVersion = some 4 := (Outcome.ok.inj hin).symm
    rw [openDb_eq_ok, hversion]
    exact ⟨rfl, rfl⟩

/-- After one attempt that was interrupted the store can still be opened, and its tables are what
they would have been. -/
theorem openDb_crash (h : openDb env db = .ok r) {commits : Nat}
    (hharmless : Harmless env db commits) :
    ∃ r', openDb env (crash env db commits) = .ok r' ∧
      ∀ t, Keeps t (WalletDb.tables.get t r) (WalletDb.tables.get t r') := by
  obtain ⟨hall, hcommit⟩ := openDb_eq_ok.mp h
  have hnodup := (transactions_eq db.dbVersion).1
  have htake := Components.commitAll_take commits hcommit
  change _ = Outcome.ok (crash env db commits) at htake
  rcases Nat.lt_or_ge commits (transactions db.dbVersion).length with hlt | hge
  · have hsplit := List.take_append_drop commits (transactions db.dbVersion)
    rw [← hsplit] at hcommit hnodup
    obtain ⟨e, he, hrest⟩ := Components.commitAll_append.mp hcommit
    rw [htake, Outcome.ok.injEq] at he
    subst he
    obtain ⟨hin, hout⟩ := Components.get_of_commitAll (List.nodup_append.mp hnodup).1 htake
    have hversion : (crash env db commits).dbVersion = db.dbVersion :=
      hout .dbVersion (dbVersion_not_mem_take hlt)
    obtain ⟨r', hr', hkeeps⟩ := Components.redo (R := Keeps) Keeps.refl hnodup hrest
      fun t ht => transact_again (hharmless hlt t ht) (hin t ht)
    rw [hsplit] at hr'
    exact ⟨r', openDb_eq_ok.mpr ⟨hversion ▸ hall, hversion ▸ hr'⟩, hkeeps⟩
  · rw [List.take_of_length_le hge, hcommit, Outcome.ok.injEq] at htake
    rw [← htake]
    exact ⟨r, openDb_opened h, fun t => Keeps.refl t _⟩

/-- The tables of a store that was opened after interrupted attempts, against those of one that was
opened at once. -/
structure Recovered (r r' : WalletDb) : Prop where
  dbVersion : r'.dbVersion = r.dbVersion
  mintQuotes : r'.mintQuotes = r.mintQuotes
  meltQuotes : r'.meltQuotes = r.meltQuotes
  mints : r'.mints = r.mints
  mintKeysets : r'.mintKeysets = r.mintKeysets
  mintKeys : r'.mintKeys = r.mintKeys
  keysets : r'.keysets = r.keysets
  keysetU32Mapping : r'.keysetU32Mapping = r.keysetU32Mapping
  keysetCounter : CountersLe r.keysetCounter r'.keysetCounter

theorem Recovered.of_keeps {r r' : WalletDb}
    (h : ∀ t, Keeps t (WalletDb.tables.get t r) (WalletDb.tables.get t r')) : Recovered r r' where
  dbVersion := (h .dbVersion).symm
  mintQuotes := (h .mintQuotes).symm
  meltQuotes := (h .meltQuotes).symm
  mints := (h .mints).symm
  mintKeysets := (h .mintKeysets).symm
  mintKeys := (Prod.ext_iff.mp (h .keysetU32Mapping)).1.symm
  keysets := (Prod.ext_iff.mp (Prod.ext_iff.mp (h .keysetU32Mapping)).2).1.symm
  keysetU32Mapping := (Prod.ext_iff.mp (Prod.ext_iff.mp (h .keysetU32Mapping)).2).2.symm
  keysetCounter := h .keysetCounter

/-- After any number of harmless attempts that were interrupted, a store that could have been opened
at first is opened, with the tables of an uninterrupted migration and no smaller counters. -/
theorem recovered_of_harmless {attempts : List Nat}
    (h : Along (crash env) (Harmless env) db attempts) (hfirst : openDb env db = .ok r) :
    ∃ r', openDb env (run (crash env) db attempts) = .ok r' ∧ Recovered r r' := by
  let Inv (db' : WalletDb) : Prop := ∃ r', openDb env db' = .ok r' ∧
    ∀ t, Keeps t (WalletDb.tables.get t r) (WalletDb.tables.get t r')
  have hstep : ∀ db' commits, Inv db' → Harmless env db' commits → Inv (crash env db' commits) := by
    rintro db' commits ⟨r', hopen, hkeeps⟩ hharmless
    obtain ⟨r'', hopen', hkeeps'⟩ := openDb_crash hopen hharmless
    exact ⟨r'', hopen', fun t => (hkeeps t).trans (hkeeps' t)⟩
  obtain ⟨r', hopen, hkeeps⟩ := @invariant_along WalletDb Nat (crash env) (Harmless env) Inv hstep
    db attempts ⟨r, hfirst, fun t => Keeps.refl t _⟩ h
  exact ⟨r', hopen, .of_keeps hkeeps⟩

end Attempts

/-! ## A store with a counter and one with a keyset -/

/-- Texts without upper case, and no quotes. -/
def sampleEnv : MigrationEnv :=
  ⟨⟨fun text => text, fun text => text⟩, ⟨fun _ => none, fun _ => "", fun _ => none, fun _ => ""⟩⟩

/-- A store of version 2. -/
def sampleDb (keysets : RedbTable (List UInt8) String) : WalletDb where
  dbVersion := some 2
  mintQuotes := ∅
  meltQuotes := ∅
  mints := ∅
  mintKeysets := ∅
  mintKeys := ∅
  keysets := keysets
  keysetU32Mapping := ∅
  keysetCounter := (∅ : RedbTable String Nat).insert "00ad268c4d1f5826" 3

theorem opens_sampleDb (keysets : RedbTable (List UInt8) String)
    (h : keysets = ∅ ∨ keysets = (∅ : RedbTable (List UInt8) String).insert (Id.v1 0).toBytes "") :
    ∃ r, openDb sampleEnv (sampleDb keysets) = .ok r := by
  rcases h with rfl | rfl
  · exact ⟨_, rfl⟩
  · exact ⟨_, rfl⟩

/-- Two attempts are interrupted, the first one after it has raised the counter. -/
theorem recovered_of_harmless_at_two :
    ∃ r r', openDb sampleEnv (sampleDb ∅) = .ok r ∧
      openDb sampleEnv (run (crash sampleEnv) (sampleDb ∅) [2, 1]) = .ok r' ∧ Recovered r r' := by
  obtain ⟨r, hr⟩ := opens_sampleDb ∅ (.inl rfl)
  have hfirst : Harmless sampleEnv (sampleDb ∅) 2 := by
    intro _ t ht
    rcases List.mem_cons.mp ht with rfl | ht
    · exact rfl
    · obtain rfl : t = .keysetCounter := List.mem_singleton.mp ht
      have hentries : (sampleDb ∅).keysetCounter.toList = [("00ad268c4d1f5826", 3)] := by
        decide +kernel
      intro entry hentry _
      have hmem : entry ∈ [("00ad268c4d1f5826", 3)] := hentries ▸ hentry
      rw [List.mem_singleton.mp hmem]
      decide
  have hsecond : Harmless sampleEnv (crash sampleEnv (sampleDb ∅) 2) 1 := by
    intro _ t ht
    obtain rfl : t = .keysetU32Mapping := List.mem_singleton.mp ht
    exact rfl
  have halong : Along (crash sampleEnv) (Harmless sampleEnv) (sampleDb ∅) [2, 1] :=
    ⟨hfirst, hsecond, trivial⟩
  obtain ⟨r', hr', hrecovered⟩ := recovered_of_harmless halong hr
  exact ⟨r, r', hr, hr', hrecovered⟩

/-- An identifier that is in the mapping already is a duplicate. -/
theorem not_recovered_sampleDb :
    ¬ ∀ (env : MigrationEnv) (db r : WalletDb) (attempts : List Nat), openDb env db = .ok r →
      ∃ r', openDb env (run (crash env) db attempts) = .ok r' ∧ Recovered r r' := by
  intro h
  obtain ⟨r, hr⟩ := opens_sampleDb _ (.inr rfl)
  obtain ⟨r', hr', -⟩ := h _ _ r [1] hr
  have hduplicate : openDb sampleEnv (run (crash sampleEnv) (sampleDb
      ((∅ : RedbTable (List UInt8) String).insert (Id.v1 0).toBytes "")) [1]) =
        .err .duplicate := rfl
  rw [hduplicate] at hr'
  cases hr'

end Redb

end Cdk
