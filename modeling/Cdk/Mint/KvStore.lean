import Cdk.Lib.Outcome
import Cdk.Lib.Runs
import Cdk.Lib.Table
import Cdk.Nuts.Types

/-!
# The key-value store of the mint

The backends of payments keep what they need after a restart in one table of
the database, which all of them write in transactions of their own. A call
checks its namespaces and its key before it touches the table. The order of a
list is the one in which SQLite sorts texts: by their bytes.
-/

namespace Cdk

open Lib

/-! ## Namespaces and keys -/

/-- The error of a namespace or a key that the store refuses. -/
inductive KvError where
  | kvStoreInvalidKey (message : String)
deriving DecidableEq, Repr

/-- The namespaces and the key that a call names. -/
structure KvAddress where
  primaryNamespace : String
  secondaryNamespace : String
  key : String
deriving DecidableEq, Repr

/-- `KVSTORE_NAMESPACE_KEY_ALPHABET`. -/
def kvstoreNamespaceKeyAlphabet : String :=
  "abcdefghijklmnopqrstuvwxyzABCDEFGHIJKLMNOPQRSTUVWXYZ0123456789_-"

/-- `KVSTORE_NAMESPACE_KEY_MAX_LEN`. -/
def kvstoreNamespaceKeyMaxLen : Nat := 120

def validateKvstoreString (s : String) : Outcome KvError Unit :=
  if kvstoreNamespaceKeyMaxLen < (utf8 s).length then
    .err (.kvStoreInvalidKey
      (toString kvstoreNamespaceKeyMaxLen ++ " exceeds maximum length of key characters"))
  else if s.toList.all fun c => kvstoreNamespaceKeyAlphabet.toList.contains c then .ok ()
  else .err (.kvStoreInvalidKey ("key contains invalid characters. " ++
    "Only ASCII letters, numbers, underscore, and hyphen are allowed"))

/-- Without a primary namespace there is no secondary one. -/
def validateEmptyNamespaces (primary secondary : String) : Outcome KvError Unit :=
  if primary = "" ∧ secondary ≠ "" then
    .err (.kvStoreInvalidKey
      "If primary_namespace is empty, secondary_namespace must also be empty")
  else .ok ()

/-- What `kv_list` checks. -/
def validateKvstoreNamespaces (primary secondary : String) : Outcome KvError Unit := do
  validateKvstoreString primary
  validateKvstoreString secondary
  validateEmptyNamespaces primary secondary

def validateKvstoreParams (a : KvAddress) : Outcome KvError Unit := do
  validateKvstoreString a.primaryNamespace
  validateKvstoreString a.secondaryNamespace
  validateKvstoreString a.key
  validateEmptyNamespaces a.primaryNamespace a.secondaryNamespace
  let namespaceKey := a.primaryNamespace ++ "/" ++ a.secondaryNamespace
  if a.key = a.primaryNamespace ∨ a.key = a.secondaryNamespace ∨ a.key = namespaceKey then
    .err (.kvStoreInvalidKey ("Key '" ++ a.key ++ "' conflicts with namespace names"))
  else .ok ()

/-! ## The table -/

/-- A row of `kv_store`, whose times nothing reads. -/
structure KvRow where
  address : KvAddress
  value : List UInt8
deriving DecidableEq, Repr

abbrev KvTable := Table KvRow.address

abbrev KvTx := Tx KvTable KvError

/-- The order of texts in a column of SQLite: the first byte that differs decides. -/
def bytesLe : List UInt8 → List UInt8 → Bool
  | [], _ => true
  | _ :: _, [] => false
  | a :: as, b :: bs => if a = b then bytesLe as bs else a.toNat.blt b.toNat

/-- The keys of a namespace, in the order of their bytes. -/
def KvTable.keys (t : KvTable) (primary secondary : String) : List String :=
  ((t.rows.filter fun r => r.address.primaryNamespace == primary &&
    r.address.secondaryNamespace == secondary).map fun r => r.address.key).mergeSort
    fun k k' => bytesLe (utf8 k) (utf8 k')

def kvRead (a : KvAddress) : KvTx (Option (List UInt8)) := do
  Tx.lift (validateKvstoreParams a)
  Tx.read fun t => (t.find? a).map KvRow.value

def kvWrite (a : KvAddress) (value : List UInt8) : KvTx Unit := do
  Tx.lift (validateKvstoreParams a)
  Tx.write fun t => t.upsert ⟨a, value⟩

def kvRemove (a : KvAddress) : KvTx Unit := do
  Tx.lift (validateKvstoreParams a)
  Tx.write fun t => t.delete fun r => r.address == a

def kvList (primary secondary : String) : KvTx (List String) := do
  Tx.lift (validateKvstoreNamespaces primary secondary)
  Tx.read fun t => t.keys primary secondary

/-! ## Transactions -/

/-- A call that changes the table. -/
inductive KvCall where
  | write (a : KvAddress) (value : List UInt8)
  | remove (a : KvAddress)
deriving DecidableEq, Repr

namespace KvCall

def address : KvCall → KvAddress
  | write a _ => a
  | remove a => a

/-- What the call leaves under its address. -/
def value : KvCall → Option (List UInt8)
  | write _ value => some value
  | remove _ => none

def run : KvCall → KvTx Unit
  | write a value => kvWrite a value
  | remove a => kvRemove a

/-- A call that is refused changes nothing, and the transaction goes on. -/
def apply (t : KvTable) (c : KvCall) : KvTable := (Tx.commit c.run t).2

/-- The call is about the address, and it is not refused. -/
def sets (c : KvCall) (a : KvAddress) : Bool :=
  c.address == a && validateKvstoreParams a == .ok ()

end KvCall

/-- The calls of a transaction, which is committed or dropped. -/
structure KvTransaction where
  calls : List KvCall
  commits : Bool
deriving DecidableEq, Repr

def KvTransaction.committed (transaction : KvTransaction) : List KvCall :=
  if transaction.commits then transaction.calls else []

def KvTransaction.apply (t : KvTable) (transaction : KvTransaction) : KvTable :=
  if transaction.commits then transaction.calls.foldl KvCall.apply t else t

/-- What the last of these calls that sets an address leaves there. -/
def latest (calls : List KvCall) (a : KvAddress) : Option (List UInt8) :=
  (calls.reverse.find? fun c => c.sets a).bind KvCall.value

/-- What the table holds under an address. -/
def KvTable.get (t : KvTable) (a : KvAddress) : Option (List UInt8) :=
  (t.find? a).map KvRow.value

section Store

variable {t : KvTable} {a : KvAddress} {c : KvCall}

theorem bytesLe_total (a b : List UInt8) : (bytesLe a b || bytesLe b a) = true := by
  induction a, b using bytesLe.induct with
  | case1 b => rfl
  | case2 a as => rfl
  | case3 as b bs ih => simpa [bytesLe] using ih
  | case4 a as b bs hne =>
      have hnat : a.toNat ≠ b.toNat := fun h => hne (UInt8.toNat_inj.mp h)
      simp only [bytesLe, hne, Ne.symm hne, if_false, Bool.or_eq_true, Nat.blt_eq]
      omega

theorem bytesLe_trans {a b c : List UInt8} (hab : bytesLe a b = true) (hbc : bytesLe b c = true) :
    bytesLe a c = true := by
  induction a generalizing b c with
  | nil => rfl
  | cons x a ih =>
      cases b with
      | nil => cases hab
      | cons y b =>
          cases c with
          | nil => cases hbc
          | cons z c =>
              simp only [bytesLe] at hab hbc ⊢
              split at hab
              next hxy =>
                rw [hxy]
                split at hbc
                next hyz => rw [if_pos hyz]; exact ih hab hbc
                next hyz => rw [if_neg hyz]; exact hbc
              next hxy =>
                rw [Nat.blt_eq] at hab
                split at hbc
                next hyz => rw [if_neg (hyz ▸ hxy), ← hyz, Nat.blt_eq]; exact hab
                next hyz =>
                  rw [Nat.blt_eq] at hbc
                  have hxz : x ≠ z := fun h => by rw [h] at hab; omega
                  rw [if_neg hxz, Nat.blt_eq]
                  exact hab.trans hbc

theorem kvRead_eq (a : KvAddress) (t : KvTable) :
    kvRead a t = (validateKvstoreParams a >>= fun _ => .ok (t.get a, t)) := by
  cases h : validateKvstoreParams a <;> simp [kvRead, h, KvTable.get] <;> rfl

theorem kvList_eq (primary secondary : String) (t : KvTable) :
    kvList primary secondary t =
      (validateKvstoreNamespaces primary secondary >>= fun _ =>
        .ok (t.keys primary secondary, t)) := by
  cases h : validateKvstoreNamespaces primary secondary <;> simp [kvList, h] <;> rfl

theorem KvCall.sets_iff :
    c.sets a = true ↔ c.address = a ∧ validateKvstoreParams a = .ok () := by
  simp [KvCall.sets]

/-- Writing or removing what a valid address holds, and no change where it is refused. -/
theorem KvCall.apply_cases (t : KvTable) (c : KvCall) :
    validateKvstoreParams c.address = .ok () ∧
        ((∃ a value, c = .write a value ∧ c.apply t = t.upsert ⟨a, value⟩) ∨
          ∃ a, c = .remove a ∧ c.apply t = t.delete fun r => r.address == a) ∨
      validateKvstoreParams c.address ≠ .ok () ∧ c.apply t = t := by
  cases hvalid : validateKvstoreParams c.address with
  | ok u =>
      refine .inl ⟨rfl, ?_⟩
      cases c with
      | write a value =>
          refine .inl ⟨a, value, rfl, ?_⟩
          have hok : kvWrite a value t = .ok ((), t.upsert ⟨a, value⟩) :=
            Tx.bind_of_ok (Tx.lift_ok.mpr ⟨hvalid, rfl⟩)
          rw [KvCall.apply, KvCall.run, Tx.commit, hok]
      | remove a =>
          refine .inr ⟨a, rfl, ?_⟩
          have hok : kvRemove a t = .ok ((), t.delete fun r => r.address == a) :=
            Tx.bind_of_ok (Tx.lift_ok.mpr ⟨hvalid, rfl⟩)
          rw [KvCall.apply, KvCall.run, Tx.commit, hok]
  | err e =>
      refine .inr ⟨fun h => (by cases h), ?_⟩
      have herr : c.run t = .err e := by
        cases c <;> exact Tx.bind_err.mpr (.inl (Tx.lift_err.mpr hvalid))
      rw [KvCall.apply, Tx.commit, herr]
  | panic =>
      refine .inr ⟨fun h => (by cases h), ?_⟩
      rcases Tx.commit_cases (c.run) t with ⟨u, t', hok, -⟩ | ⟨-, hcommit, -⟩
      · cases c <;>
        · obtain ⟨_, _, hlift, -⟩ := Tx.bind_ok.mp hok
          have hvalid' := (Tx.lift_ok.mp hlift).1
          cases hvalid.symm.trans hvalid'
      · rw [KvCall.apply, hcommit]

/-- A call sets what its address leads to, and no other address. -/
theorem KvCall.get_apply : (c.apply t).get a = if c.sets a then c.value else t.get a := by
  rcases c.apply_cases t with ⟨hvalid, ⟨a', value, rfl, happly⟩ | ⟨a', rfl, happly⟩⟩ |
    ⟨hinvalid, happly⟩
  · rw [happly, KvTable.get, Table.find?_upsert]
    by_cases ha : a' = a
    · subst ha
      have hsets : (KvCall.write a' value).sets a' = true := KvCall.sets_iff.mpr ⟨rfl, hvalid⟩
      rw [if_pos rfl, if_pos hsets]
      rfl
    · have hsets : ¬ (KvCall.write a' value).sets a = true := fun h =>
        ha (KvCall.sets_iff.mp h).1
      rw [if_neg ha, if_neg hsets]
      rfl
  · rw [happly, KvTable.get, Table.find?_delete_key (p := fun k => k == a')]
    by_cases ha : a' = a
    · subst ha
      have hsets : (KvCall.remove a').sets a' = true := KvCall.sets_iff.mpr ⟨rfl, hvalid⟩
      rw [if_pos (beq_self_eq_true a'), if_pos hsets]
      rfl
    · have hsets : ¬ (KvCall.remove a').sets a = true := fun h => ha (KvCall.sets_iff.mp h).1
      rw [if_neg (by simpa using Ne.symm ha), if_neg hsets]
      rfl
  · have hsets : ¬ c.sets a = true := by
      intro h
      obtain ⟨rfl, hvalid⟩ := KvCall.sets_iff.mp h
      exact hinvalid hvalid
    rw [happly, if_neg hsets]

/-- Only valid addresses are stored. -/
theorem KvCall.apply_valid (h : ∀ r ∈ t.rows, validateKvstoreParams r.address = .ok ()) :
    ∀ r ∈ (c.apply t).rows, validateKvstoreParams r.address = .ok () := by
  intro r hr
  rcases c.apply_cases t with ⟨hvalid, ⟨a', value, rfl, happly⟩ | ⟨a', rfl, happly⟩⟩ |
    ⟨-, happly⟩
  · rw [happly] at hr
    rcases Table.mem_upsert.mp hr with rfl | ⟨hr, -⟩
    · exact hvalid
    · exact h r hr
  · rw [happly] at hr
    exact h r (Table.mem_delete.mp hr).1
  · exact h r (happly ▸ hr)

/-- What a list of calls leaves under an address. -/
theorem KvTable.get_foldl (calls : List KvCall) :
    (calls.foldl KvCall.apply t).get a =
      ((calls.reverse.find? fun c => c.sets a).map KvCall.value).getD (t.get a) := by
  induction calls generalizing t with
  | nil => rfl
  | cons c rest ih =>
      rw [List.foldl_cons, ih, KvCall.get_apply, List.reverse_cons, List.find?_append]
      cases rest.reverse.find? fun c => c.sets a with
      | some last => rfl
      | none =>
          rw [Option.none_or, List.find?_singleton]
          cases c.sets a <;> rfl

/-- Other calls leave what is under an address. -/
theorem KvTable.get_foldl_of_ne {calls : List KvCall}
    (h : ∀ c ∈ calls, c.address ≠ a) : (calls.foldl KvCall.apply t).get a = t.get a := by
  have hnone : (calls.reverse.find? fun c => c.sets a) = none := by
    rw [List.find?_eq_none]
    intro c hc hsets
    exact h c (List.mem_reverse.mp hc) (KvCall.sets_iff.mp hsets).1
  rw [KvTable.get_foldl, hnone]
  rfl

/-- The last call leaves its value. -/
theorem KvTable.get_foldl_write {value : List UInt8} (calls : List KvCall)
    (hvalid : validateKvstoreParams a = .ok ()) :
    ((calls ++ [KvCall.write a value]).foldl KvCall.apply t).get a = some value := by
  have hsets : (KvCall.write a value).sets a = true := KvCall.sets_iff.mpr ⟨rfl, hvalid⟩
  rw [List.foldl_append, List.foldl_cons, List.foldl_nil, KvCall.get_apply, if_pos hsets]
  rfl

theorem KvTable.foldl_valid (calls : List KvCall)
    (h : ∀ r ∈ t.rows, validateKvstoreParams r.address = .ok ()) :
    ∀ r ∈ (calls.foldl KvCall.apply t).rows, validateKvstoreParams r.address = .ok () := by
  induction calls generalizing t with
  | nil => exact h
  | cons c rest ih => exact ih (KvCall.apply_valid h)

theorem KvTransaction.apply_eq (transaction : KvTransaction) :
    transaction.apply t = transaction.committed.foldl KvCall.apply t := by
  unfold KvTransaction.apply KvTransaction.committed
  split <;> rfl

/-- The table behind a run is the one behind the calls of its committed transactions. -/
theorem run_transactions (transactions : List KvTransaction) :
    run KvTransaction.apply t transactions =
      (transactions.flatMap KvTransaction.committed).foldl KvCall.apply t := by
  induction transactions generalizing t with
  | nil => rfl
  | cons transaction rest ih =>
      rw [run_cons, ih, KvTransaction.apply_eq, List.flatMap_cons, List.foldl_append]

theorem KvTable.get_eq_some {value : List UInt8} :
    t.get a = some value ↔ ⟨a, value⟩ ∈ t.rows := by
  rw [KvTable.get, Option.map_eq_some_iff]
  constructor
  · rintro ⟨r, hfind, rfl⟩
    obtain ⟨hr, rfl⟩ := Table.find?_eq_some.mp hfind
    exact hr
  · intro hr
    exact ⟨_, Table.find?_eq_some.mpr ⟨hr, rfl⟩, rfl⟩

theorem KvTable.mem_keys {primary secondary key : String} :
    key ∈ t.keys primary secondary ↔ ∃ value, t.get ⟨primary, secondary, key⟩ = some value := by
  rw [KvTable.keys, List.mem_mergeSort, List.mem_map]
  constructor
  · rintro ⟨⟨a, value⟩, hr, rfl⟩
    obtain ⟨hmem, hname⟩ := List.mem_filter.mp hr
    rw [Bool.and_eq_true, beq_iff_eq, beq_iff_eq] at hname
    obtain ⟨rfl, rfl⟩ := hname
    exact ⟨value, KvTable.get_eq_some.mpr hmem⟩
  · rintro ⟨value, hvalue⟩
    exact ⟨_, List.mem_filter.mpr ⟨KvTable.get_eq_some.mp hvalue, by simp⟩, rfl⟩

/-- A key stands once in its namespace. -/
theorem KvTable.keys_nodup (t : KvTable) (primary secondary : String) :
    (t.keys primary secondary).Nodup := by
  refine (List.mergeSort_perm _ _).nodup_iff.mpr (List.Nodup.map_on ?_ (t.nodup.of_map.filter _))
  intro r hr r' hr' hkey
  obtain ⟨hmem, hname⟩ := List.mem_filter.mp hr
  obtain ⟨hmem', hname'⟩ := List.mem_filter.mp hr'
  rw [Bool.and_eq_true, beq_iff_eq, beq_iff_eq] at hname hname'
  have haddress : r.address = r'.address := by
    cases hr : r.address
    cases hr' : r'.address
    rw [hr] at hname hkey
    rw [hr'] at hname' hkey
    rw [KvAddress.mk.injEq]
    exact ⟨hname.1.trans hname'.1.symm, hname.2.trans hname'.2.symm, hkey⟩
  exact Table.eq_of_key hmem hmem' haddress

theorem KvTable.keys_pairwise (t : KvTable) (primary secondary : String) :
    (t.keys primary secondary).Pairwise fun k k' => bytesLe (utf8 k) (utf8 k') = true := by
  unfold KvTable.keys
  apply List.pairwise_mergeSort
  · intro k k' k'' h h'
    exact bytesLe_trans h h'
  · intro k k'
    exact bytesLe_total (utf8 k) (utf8 k')

end Store

/-- Behind any transactions of any backends, a read answers what the last committed call that was
not refused has left under the address, and a list answers the keys of the namespace under which a
read finds a value, each once and in SQLite's order. -/
theorem kv_store_refines (transactions : List KvTransaction) :
    (∀ a, kvRead a (run KvTransaction.apply Table.empty transactions) =
      (validateKvstoreParams a >>= fun _ =>
        .ok (latest (transactions.flatMap KvTransaction.committed) a,
          run KvTransaction.apply Table.empty transactions))) ∧
    ∀ primary secondary, ∃ keys,
      kvList primary secondary (run KvTransaction.apply Table.empty transactions) =
        (validateKvstoreNamespaces primary secondary >>= fun _ =>
          .ok (keys, run KvTransaction.apply Table.empty transactions)) ∧
      keys.Nodup ∧ keys.Pairwise (fun k k' => bytesLe (utf8 k) (utf8 k') = true) ∧
        ∀ key, key ∈ keys ↔ ∃ value,
          kvRead ⟨primary, secondary, key⟩ (run KvTransaction.apply Table.empty transactions) =
            .ok (some value, run KvTransaction.apply Table.empty transactions) := by
  have hget : ∀ a, (run KvTransaction.apply Table.empty transactions).get a =
      latest (transactions.flatMap KvTransaction.committed) a := by
    intro a
    rw [run_transactions, KvTable.get_foldl, latest]
    cases (transactions.flatMap KvTransaction.committed).reverse.find? fun c => c.sets a <;> rfl
  have hvalid : ∀ r ∈ (run KvTransaction.apply Table.empty transactions).rows,
      validateKvstoreParams r.address = .ok () := by
    rw [run_transactions]
    refine KvTable.foldl_valid _ fun r hr => ?_
    cases hr
  refine ⟨fun a => by rw [kvRead_eq, hget], fun primary secondary => ?_⟩
  generalize run KvTransaction.apply Table.empty transactions = t at hvalid ⊢
  refine ⟨t.keys primary secondary, kvList_eq primary secondary t, t.keys_nodup primary secondary,
    t.keys_pairwise primary secondary, fun key => ?_⟩
  rw [KvTable.mem_keys]
  refine exists_congr fun value => ?_
  rw [kvRead_eq]
  constructor
  · intro hvalue
    rw [hvalid _ (KvTable.get_eq_some.mp hvalue), hvalue]
    rfl
  · intro hread
    obtain ⟨_, -, hanswer⟩ := Outcome.bind_eq_ok.mp hread
    rw [Outcome.ok.injEq, Prod.mk.injEq] at hanswer
    exact hanswer.1

end Cdk
