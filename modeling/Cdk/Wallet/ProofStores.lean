import Cdk.Lib.Ranges
import Cdk.Wallet.BrowserStore
import Cdk.Wallet.RedbProofs
import Cdk.Wallet.SqlStore

/-!
# Proofs, balances and counters in three wallet stores

The SQL store, the redb store and the store of the browser each implement the
same calls: to change proofs and their states, to ask for proofs and for a
balance, and to take a range from the counter of a keyset. Here each of them
runs a call on a state of its own.
-/

namespace Cdk

open Lib

namespace ProofStores

/-- The optional arguments of `get_balance`. -/
structure BalanceFilter where
  mintUrl : Option String
  unit : Option CurrencyUnit
  states : Option (List State)
deriving DecidableEq, Repr

/-- The same filter for `get_proofs`. -/
def BalanceFilter.toProofFilter (filter : BalanceFilter) : ProofFilter :=
  ⟨filter.mintUrl, filter.unit, filter.states, none⟩

inductive Call where
  | updateProofs (added : List ProofInfo) (removed : List PublicKey)
  | updateProofsState (ys : List PublicKey) (state : State)
  | getProofs (filter : ProofFilter)
  | getBalance (filter : BalanceFilter)
  | incrementKeysetCounter (id : Id) (count : Nat)

inductive Answer where
  | done
  | proofs (infos : List ProofInfo)
  | balance (total : Nat)
  | counter (value : Nat)

inductive StoreError where
  | sql (error : SqlWallet.Error)
  | redb (error : RedbProofsError)
deriving DecidableEq, Repr

/-- The total amount of proofs. -/
def totalOf (infos : List ProofInfo) : Nat := Amount.total (infos.map fun info => info.proof.amount)

/-- `Iterator::sum` of the amounts of proofs, as `u64`. -/
def sumOf (infos : List ProofInfo) : Outcome StoreError Nat :=
  if totalOf infos < 2 ^ 64 then .ok (totalOf infos) else .panic

/-! ## The SQL store -/

/-- The columns of `keyset` that the counter is in. -/
structure KeysetRow where
  id : SqlWallet.Value
  counter : SqlWallet.Value
deriving DecidableEq, Repr

structure SqlStore where
  db : SqlWallet.Db
  keysets : Table KeysetRow.id

namespace SqlStore

/-- An empty store with keysets whose counters have their default. -/
def empty (keysets : List Id) : SqlStore :=
  ⟨.empty, keysets.foldl (fun t id => t.upsert ⟨.text id.toText, .integer 0⟩) .empty⟩

def updateProofs (env : SqlWallet.RowEnv) (s : SqlStore) (added : List ProofInfo)
    (removed : List PublicKey) : SqlStore :=
  { s with db := s.db.updateProofs env added removed }

/-- `UPDATE proof SET state = :state WHERE y IN (:ys)` on a row. -/
def setRowState (ys : List PublicKey) (state : State) (row : SqlWallet.ProofRow) :
    SqlWallet.ProofRow :=
  if (ys.map SqlWallet.Db.yColumn).contains row.y then { row with state := .text state.toText }
  else row

theorem setRowState_y (ys : List PublicKey) (state : State) (row : SqlWallet.ProofRow) :
    (setRowState ys state row).y = row.y := by
  unfold setRowState
  split <;> rfl

/-- `SQLWalletDatabase::update_proofs_state`. -/
def updateProofsState (s : SqlStore) (ys : List PublicKey) (state : State) : SqlStore :=
  { s with
    db := { s.db with
      proofs := s.db.proofs.update (setRowState ys state) (setRowState_y ys state) } }

/-- The `WHERE` of `get_balance`. Without states there is no condition on the state, and an empty
list of states is none. -/
def balanceWhere (env : SqlWallet.RowEnv) (filter : BalanceFilter) (row : SqlWallet.ProofRow) :
    Bool :=
  let states := (filter.states.getD []).map fun state => SqlWallet.Value.text state.toText
  filter.mintUrl.all (fun mintUrl => row.mintUrl == .text mintUrl) &&
  filter.unit.all (fun unit => row.unit == .text (unit.toText env.casing)) &&
  (states.isEmpty || states.contains row.state)

/-- The numbers of an `i64`. -/
def fitsI64 (n : Int) : Bool := -9223372036854775808 ≤ n && n < 9223372036854775808

/-- A round of `SUM` over integers, which fails on overflow. -/
def addSum (total : Int) (value : SqlWallet.Value) : Outcome StoreError Int :=
  match value with
  | .integer n => if fitsI64 (total + n) then .ok (total + n) else .err (.sql .database)
  | _ => .ok total

/-- `SQLWalletDatabase::get_balance`, whose result is cast to `u64`. -/
def getBalance (env : SqlWallet.RowEnv) (s : SqlStore) (filter : BalanceFilter) :
    Outcome StoreError Nat := do
  let rows := s.db.proofs.rows.filter (balanceWhere env filter)
  let total ← (rows.map SqlWallet.ProofRow.amount).foldlM addSum 0
  .ok (BitVec.ofInt 64 total).toNat

/-- `u32::try_from` for an `i64`. -/
def u32TryFrom (n : Int) : Option Nat :=
  if 0 ≤ n ∧ n.toNat < 2 ^ 32 then some n.toNat else none

/-- The counter of the row of a keyset, or zero. -/
def currentCounter (s : SqlStore) (id : Id) : Outcome StoreError Nat :=
  match s.keysets.find? (.text id.toText) with
  | some row =>
      (SqlWallet.columnAsNumber (fun text => (parseU64 text).filter (· < 2 ^ 32)) u32TryFrom "n"
        row.counter).mapErr .sql
  | none => .ok 0

/-- `UPDATE keyset SET counter = :new_counter WHERE id = :id` on a row. -/
def setRowCounter (id : Id) (counter : Nat) (row : KeysetRow) : KeysetRow :=
  if row.id == .text id.toText then { row with counter := .integer counter } else row

theorem setRowCounter_id (id : Id) (counter : Nat) (row : KeysetRow) :
    (setRowCounter id counter row).id = row.id := by
  unfold setRowCounter
  split <;> rfl

/-- `SQLWalletDatabase::increment_keyset_counter`, whose addition panics on overflow. -/
def incrementKeysetCounter (s : SqlStore) (id : Id) (count : Nat) :
    Outcome StoreError (Nat × SqlStore) := do
  let current ← s.currentCounter id
  let newCounter := current + count
  if newCounter < 2 ^ 32 then
    .ok (newCounter, { s with
      keysets := s.keysets.update (setRowCounter id newCounter) (setRowCounter_id id newCounter) })
  else .panic

def exec (env : SqlWallet.RowEnv) (s : SqlStore) : Call → Outcome StoreError (Answer × SqlStore)
  | .updateProofs added removed => .ok (.done, s.updateProofs env added removed)
  | .updateProofsState ys state => .ok (.done, s.updateProofsState ys state)
  | .getProofs filter => .ok (.proofs (s.db.getProofs env filter), s)
  | .getBalance filter => do
      let total ← s.getBalance env filter
      .ok (.balance total, s)
  | .incrementKeysetCounter id count => do
      let (value, s) ← s.incrementKeysetCounter id count
      .ok (.counter value, s)

end SqlStore

/-! ## The redb store -/

/-- The tables of proofs and of counters; a counter that is absent is zero. -/
structure RedbStore where
  proofs : ProofTable
  counters : Id → Nat

namespace RedbStore

def empty : RedbStore := ⟨.empty, fun _ => 0⟩

/-- `WalletRedbDatabase::get_proofs`. -/
def getProofs (s : RedbStore) (filter : ProofFilter) : List ProofInfo :=
  s.proofs.rows.filter fun info => info.matchesConditions filter

/-- `WalletRedbDatabase::increment_keyset_counter`, whose addition panics on overflow. -/
def incrementKeysetCounter (s : RedbStore) (id : Id) (count : Nat) :
    Outcome StoreError (Nat × RedbStore) :=
  let newCounter := s.counters id + count
  if newCounter < 2 ^ 32 then
    .ok (newCounter, { s with counters := Function.update s.counters id newCounter })
  else .panic

def exec (s : RedbStore) : Call → Outcome StoreError (Answer × RedbStore)
  | .updateProofs added removed =>
      .ok (.done, { s with proofs := redbUpdateProofs added removed s.proofs })
  | .updateProofsState ys state => do
      let (_, proofs) ← (redbUpdateProofsState s.proofs ys state s.proofs).mapErr .redb
      .ok (.done, { s with proofs := proofs })
  | .getProofs filter => .ok (.proofs (s.getProofs filter), s)
  | .getBalance filter => do
      let total ← sumOf (s.getProofs filter.toProofFilter)
      .ok (.balance total, s)
  | .incrementKeysetCounter id count => do
      let (value, s) ← s.incrementKeysetCounter id count
      .ok (.counter value, s)

end RedbStore

/-! ## The store of the browser -/

/-- An open `LocalStorageWalletDatabase`, which answers from its own copy. -/
abbrev LocalStore := WalletState Unit

namespace LocalStore

/-- The filter of `LocalStorageWalletDatabase::get_proofs`. A proof without a spending condition
matches every list of them. -/
def selects (filter : ProofFilter) (info : ProofInfo) : Bool :=
  filter.mintUrl.all (info.mintUrl == ·) &&
  filter.unit.all (info.unit == ·) &&
  filter.state.all (·.contains info.state) &&
  filter.spendingConditions.all fun conditions =>
    info.spendingCondition.any conditions.contains || info.spendingCondition.isNone

/-- `LocalStorageWalletDatabase::get_proofs`. -/
def getProofs (s : LocalStore) (filter : ProofFilter) : List ProofInfo :=
  s.proofs.filter (selects filter)

def exec (s : LocalStore) : Call → Outcome StoreError (Answer × LocalStore)
  | .updateProofs added removed => .ok (.done, s.updateProofs added removed)
  | .updateProofsState ys state => .ok (.done, s.updateProofsState ys state)
  | .getProofs filter => .ok (.proofs (getProofs s filter), s)
  | .getBalance filter => do
      let total ← sumOf (getProofs s filter.toProofFilter)
      .ok (.balance total, s)
  | .incrementKeysetCounter id count => do
      let s ← .expect (s.incrementKeysetCounter id count)
      .ok (.counter (s.keysetCounters id), s)

end LocalStore

end ProofStores

end Cdk
