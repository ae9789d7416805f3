import Mathlib.Logic.Function.Basic
import Cdk.Sql.Pool

/-!
# Transactions on pooled connections

A transaction takes a connection from the pool and begins on it. Its connection
goes back to the pool when the transaction has been committed or rolled back,
whatever the statement has returned, and when it could not begin. A transaction
that is dropped is rolled back by a spawned task, which gives the connection
back as well.

The database refuses to begin inside a transaction. A statement that ends a
transaction and fails may leave the transaction open.
-/

namespace Cdk

open Lib

/-- What a pooled resource is held for. -/
inductive HolderKind where
  /-- `ConnectionWithTransaction`. -/
  | transaction
  /-- The task that a dropped transaction spawns. -/
  | rollback
  /-- Statements outside of a transaction. -/
  | plain
deriving DecidableEq, Repr

/-- The request that holds a pooled resource. -/
structure Holder where
  request : Nat
  kind : HolderKind
deriving DecidableEq, Repr

/-- A transaction that is open on a connection, with the requests that have written in it. -/
structure OpenTransaction where
  request : Nat
  writes : List Nat
deriving DecidableEq, Repr

/-- A write that is committed. -/
structure CommittedWrite where
  writer : Nat
  committer : Nat
deriving DecidableEq, Repr

/-- What `COMMIT` or `ROLLBACK` returns. -/
inductive Ending where
  | done
  | failed (leftOpen : Bool)
deriving DecidableEq, Repr

/-- What is open after a statement that ends a transaction. -/
def Ending.after (x : Option OpenTransaction) : Ending → Option OpenTransaction
  | done => none
  | failed leftOpen => if leftOpen then x else none

/-- The pool, what is open on its connections and who holds them. -/
structure TransactionState where
  pool : PoolState
  active : Connection → Option OpenTransaction
  holder : Connection → Option Holder
  committed : List CommittedWrite
  nextRequest : Nat

namespace TransactionState

variable {ε : Type}

def new (maxSize : Nat) : TransactionState := ⟨.new maxSize, fun _ => none, fun _ => none, [], 0⟩

/-- Drop the pooled resource of a connection. -/
def release (s : TransactionState) (connection : Connection) : TransactionState :=
  { s with
    pool := s.pool.drop (s.pool.live.idxOf connection)
    holder := Function.update s.holder connection none }

/-- Hold a connection that the pool has handed out. -/
def hold (s : TransactionState) (pool : PoolState) (connection : Connection) (kind : HolderKind) :
    TransactionState :=
  { s with
    pool := pool
    holder := Function.update s.holder connection (some ⟨s.nextRequest, kind⟩)
    nextRequest := s.nextRequest + 1 }

/-- `BEGIN` by a request, which fails inside a transaction. -/
def beginOn (s : TransactionState) (connection : Connection) (request : Nat) (succeeds : Bool) :
    Option TransactionState :=
  if succeeds ∧ s.active connection = none then
    some { s with active := Function.update s.active connection (some ⟨request, []⟩) }
  else none

/-- `ConnectionWithTransaction::new` on a connection of the pool. -/
def begin (s : TransactionState) (newResource : Except ε Unit) (succeeds : Bool) :
    TransactionState :=
  match s.pool.getTimeout newResource with
  | (.resource connection, pool) =>
      let held := s.hold pool connection .transaction
      match held.beginOn connection s.nextRequest succeeds with
      | some started => started
      | none => held.release connection
  | (_, pool) => { s with pool := pool }

/-- Take a connection for statements outside of a transaction. -/
def get (s : TransactionState) (newResource : Except ε Unit) : TransactionState :=
  match s.pool.getTimeout newResource with
  | (.resource connection, pool) => s.hold pool connection .plain
  | (_, pool) => { s with pool := pool }

/-- A write of the holder of a connection, committed at once when no transaction is open. -/
def execute (s : TransactionState) (connection : Connection) : TransactionState :=
  match s.holder connection, s.active connection with
  | some holder, some x =>
      { s with
        active := Function.update s.active connection
          (some { x with writes := x.writes ++ [holder.request] }) }
  | some holder, none =>
      { s with committed := s.committed ++ [⟨holder.request, holder.request⟩] }
  | none, _ => s

/-- The writes of a connection that a request commits. -/
def pendingWrites (s : TransactionState) (connection : Connection) (request : Nat) :
    List CommittedWrite :=
  ((s.active connection).map fun x => x.writes.map fun writer => ⟨writer, request⟩).getD []

/-- End the transaction on a connection and give the connection back. -/
def finish (s : TransactionState) (connection : Connection) (ending : Ending) : TransactionState :=
  let ended : TransactionState :=
    { s with active := Function.update s.active connection (ending.after (s.active connection)) }
  ended.release connection

/-- `ConnectionWithTransaction::commit`. -/
def commit (s : TransactionState) (connection : Connection) (ending : Ending) :
    TransactionState :=
  match s.holder connection with
  | some ⟨request, .transaction⟩ =>
      let written := if ending = .done then s.pendingWrites connection request else []
      let booked : TransactionState := { s with committed := s.committed ++ written }
      booked.finish connection ending
  | _ => s

/-- `ConnectionWithTransaction::rollback`. -/
def rollback (s : TransactionState) (connection : Connection) (ending : Ending) :
    TransactionState :=
  match s.holder connection with
  | some ⟨_, .transaction⟩ => s.finish connection ending
  | _ => s

/-- `Drop for ConnectionWithTransaction`: the rollback is left to a task. -/
def dropTransaction (s : TransactionState) (connection : Connection) : TransactionState :=
  match s.holder connection with
  | some ⟨request, .transaction⟩ =>
      { s with holder := Function.update s.holder connection (some ⟨request, .rollback⟩) }
  | _ => s

/-- The task of a dropped transaction. -/
def runRollback (s : TransactionState) (connection : Connection) (ending : Ending) :
    TransactionState :=
  match s.holder connection with
  | some ⟨_, .rollback⟩ => s.finish connection ending
  | _ => s

/-- Drop a resource that was used outside of a transaction. -/
def put (s : TransactionState) (connection : Connection) : TransactionState :=
  match s.holder connection with
  | some ⟨_, .plain⟩ => s.release connection
  | _ => s

inductive Action (ε : Type) where
  | begin (newResource : Except ε Unit) (succeeds : Bool)
  | get (newResource : Except ε Unit)
  | execute (connection : Connection)
  | commit (connection : Connection) (ending : Ending)
  | rollback (connection : Connection) (ending : Ending)
  | drop (connection : Connection)
  | runRollback (connection : Connection) (ending : Ending)
  | put (connection : Connection)
  | setStale (connection : Connection)

def step (s : TransactionState) : Action ε → TransactionState
  | .begin newResource succeeds => s.begin newResource succeeds
  | .get newResource => s.get newResource
  | .execute connection => s.execute connection
  | .commit connection ending => s.commit connection ending
  | .rollback connection ending => s.rollback connection ending
  | .drop connection => s.dropTransaction connection
  | .runRollback connection ending => s.runRollback connection ending
  | .put connection => s.put connection
  | .setStale connection =>
      { s with pool := { s.pool with stale := connection :: s.pool.stale } }

/-- No connection that the pool hands out is inside a transaction, every request writes and ends
only its own transaction, and no write was committed by another request. -/
structure Isolated (s : TransactionState) : Prop where
  handedOut : ∀ {ε : Type} (newResource : Except ε Unit) connection,
    (s.pool.getTimeout newResource).1 = .resource connection → s.active connection = none
  own : ∀ connection request, s.holder connection = some ⟨request, .transaction⟩ ∨
    s.holder connection = some ⟨request, .rollback⟩ →
      ∃ x, s.active connection = some x ∧ x.request = request ∧
        ∀ writer ∈ x.writes, writer = request
  plain : ∀ connection request, s.holder connection = some ⟨request, .plain⟩ →
    s.active connection = none
  committed : ∀ write ∈ s.committed, write.writer = write.committer
  begins : ∀ {ε : Type} (newResource : Except ε Unit) connection,
    (s.pool.getTimeout newResource).1 = .resource connection →
      (s.begin newResource true).holder connection = some ⟨s.nextRequest, .transaction⟩

/-- A statement that ends a transaction and fails has ended it nevertheless, or its connection is
not handed out again. -/
def Closes (s : TransactionState) : Action ε → Prop
  | .commit connection (.failed true) => connection ∈ s.pool.stale
  | .rollback connection (.failed true) => connection ∈ s.pool.stale
  | .runRollback connection (.failed true) => connection ∈ s.pool.stale
  | _ => True

/-! ## The pool below -/

section Pool

variable {p p' : PoolState} {connection : Connection} {newResource : Except ε Unit}

/-- A connection that is handed out was queued and not stale, or it is new. -/
theorem getTimeout_resource (h : p.getTimeout newResource = (.resource connection, p')) :
    p'.live = connection :: p.live ∧ p'.stale = p.stale ∧ p.created ≤ p'.created ∧
      (∀ c ∈ p'.pool.queue, c ∈ p.pool.queue) ∧
      ((connection ∈ p.pool.queue ∧ connection ∉ p.stale) ∨ connection = p.created) := by
  have hcreate : ∀ q : PoolState, q.createOrWait newResource = (.resource connection, p') →
      p'.live = connection :: q.live ∧ p'.stale = q.stale ∧ q.created ≤ p'.created ∧
        p'.pool.queue = q.pool.queue ∧ connection = q.created := by
    intro q hq
    unfold PoolState.createOrWait at hq
    split at hq
    · cases newResource with
      | ok u =>
          cases hq
          exact ⟨rfl, rfl, Nat.le_succ _, rfl, rfl⟩
      | error e => cases hq
    · cases hq
  unfold PoolState.getTimeout at h
  split at h
  next =>
    obtain ⟨hlive, hstale, hcreated, hqueue, hnew⟩ := hcreate p h
    exact ⟨hlive, hstale, hcreated, fun c hc => hqueue ▸ hc, .inr hnew⟩
  next head rest hq =>
    dsimp only at h
    split at h
    next =>
      obtain ⟨hlive, hstale, hcreated, hqueue, hnew⟩ := hcreate _ h
      refine ⟨hlive, hstale, hcreated, fun c hc => ?_, .inr hnew⟩
      rw [hqueue] at hc
      exact hq ▸ List.mem_cons_of_mem head hc
    next hfresh =>
      cases h
      refine ⟨rfl, rfl, Nat.le_refl _, fun c hc => hq ▸ List.mem_cons_of_mem connection hc, .inl ?_⟩
      exact ⟨hq ▸ List.mem_cons_self, by simpa using hfresh⟩

/-- A turn that hands nothing out only shortens the queue. -/
theorem getTimeout_other {turn : Turn ε} (h : p.getTimeout newResource = (turn, p'))
    (hnone : ∀ c, turn ≠ .resource c) :
    p'.live = p.live ∧ p'.stale = p.stale ∧ p'.created = p.created ∧
      ∀ c ∈ p'.pool.queue, c ∈ p.pool.queue := by
  have hcreate : ∀ q : PoolState, q.createOrWait newResource = (turn, p') →
      p'.live = q.live ∧ p'.stale = q.stale ∧ p'.created = q.created ∧
        p'.pool.queue = q.pool.queue := by
    intro q hq
    unfold PoolState.createOrWait at hq
    split at hq
    · cases newResource with
      | ok u =>
          cases hq
          exact absurd rfl (hnone _)
      | error e =>
          cases hq
          exact ⟨rfl, rfl, rfl, rfl⟩
    · cases hq
      exact ⟨rfl, rfl, rfl, rfl⟩
  unfold PoolState.getTimeout at h
  split at h
  next =>
    obtain ⟨hlive, hstale, hcreated, hqueue⟩ := hcreate p h
    exact ⟨hlive, hstale, hcreated, fun c hc => hqueue ▸ hc⟩
  next head rest hq =>
    dsimp only at h
    split at h
    next =>
      obtain ⟨hlive, hstale, hcreated, hqueue⟩ := hcreate _ h
      refine ⟨hlive, hstale, hcreated, fun c hc => ?_⟩
      rw [hqueue] at hc
      exact hq ▸ List.mem_cons_of_mem head hc
    next =>
      cases h
      exact absurd rfl (hnone _)

/-- Dropping a live connection queues it. -/
theorem drop_live (h : connection ∈ p.live) : p.drop (p.live.idxOf connection) =
    { p with
      pool := { p.pool with queue := connection :: p.pool.queue, inUse := p.pool.inUse - 1 }
      live := p.live.erase connection } := by
  have hget : p.live[p.live.idxOf connection]? = some connection := List.getElem?_idxOf h
  rw [PoolState.drop, hget, List.erase_eq_eraseIdx_of_idxOf rfl]

end Pool

/-! ## The invariant -/

/-- A transaction and its rollback have their own transaction open, and nothing is open without. -/
def Owned (holder : Holder) (x : Option OpenTransaction) : Prop :=
  if holder.kind = .plain then x = none
  else ∃ y, x = some y ∧ y.request = holder.request ∧ ∀ writer ∈ y.writes, writer = holder.request

/-- What holds between two steps, the holders of some connections aside. -/
structure InvBut (s : TransactionState) (P : Connection → Prop) : Prop where
  pool : s.pool.Inv
  held : ∀ connection, connection ∈ s.pool.live ↔ (s.holder connection).isSome = true
  own : ∀ connection holder, ¬ P connection → s.holder connection = some holder →
    Owned holder (s.active connection)
  free : ∀ connection ∈ s.pool.pool.queue,
    s.active connection = none ∨ connection ∈ s.pool.stale
  fresh : ∀ connection, s.pool.created ≤ connection → s.active connection = none
  committed : ∀ write ∈ s.committed, write.writer = write.committer

/-- What holds after every run in which ended transactions are closed. -/
def Inv (s : TransactionState) : Prop := s.InvBut fun _ => False

theorem inv_new (maxSize : Nat) : (new maxSize).Inv where
  pool := PoolState.inv_new maxSize
  held := by simp [new, PoolState.new]
  own := by simp [new]
  free := by simp [new]
  fresh := by simp [new]
  committed := by simp [new]

variable {s : TransactionState} {connection : Connection} {holder : Holder}

theorem InvBut.lt_created {P : Connection → Prop} (h : s.InvBut P)
    (hlive : connection ∈ s.pool.live) : connection < s.pool.created :=
  h.pool.fresh connection (List.mem_append_left _ hlive)

theorem InvBut.not_queued {P : Connection → Prop} (h : s.InvBut P)
    (hlive : connection ∈ s.pool.live) : connection ∉ s.pool.pool.queue := fun hqueued =>
  (List.nodup_append.mp h.pool.exclusive).2.2 connection hlive connection hqueued rfl

/-- Giving back a connection on which nothing is open, or that is not handed out again. -/
theorem inv_release (h : s.InvBut (· = connection)) (hlive : connection ∈ s.pool.live)
    (hclosed : s.active connection = none ∨ connection ∈ s.pool.stale) :
    (s.release connection).Inv := by
  have hpool := PoolState.drop_inv h.pool (s.pool.live.idxOf connection)
  have hnodup : s.pool.live.Nodup := (List.nodup_append.mp h.pool.exclusive).1
  have hdrop := drop_live hlive
  constructor
  · exact hpool
  · intro c
    change c ∈ (s.pool.drop _).live ↔ (Function.update s.holder connection none c).isSome = true
    rw [hdrop]
    dsimp only
    rw [hnodup.mem_erase_iff, h.held]
    by_cases hc : c = connection
    · subst hc
      simp
    · simp [hc]
  · intro c holder _ hholder
    change Function.update s.holder connection none c = some holder at hholder
    by_cases hc : c = connection
    · subst hc
      simp at hholder
    · rw [Function.update_of_ne hc] at hholder
      exact h.own c holder hc hholder
  · intro c hc
    change c ∈ (s.pool.drop _).pool.queue at hc
    change s.active c = none ∨ c ∈ (s.pool.drop _).stale
    rw [hdrop] at hc ⊢
    rcases List.mem_cons.mp hc with rfl | hc
    · exact hclosed
    · exact h.free c hc
  · intro c hc
    change (s.pool.drop _).created ≤ c at hc
    rw [hdrop] at hc
    exact h.fresh c hc
  · exact h.committed

/-- A turn that hands nothing out keeps the invariant. -/
theorem inv_wait (h : s.Inv) {newResource : Except ε Unit} {turn : Turn ε} {pool : PoolState}
    (hturn : s.pool.getTimeout newResource = (turn, pool)) (hnone : ∀ c, turn ≠ .resource c) :
    ({ s with pool := pool } : TransactionState).Inv := by
  have hpool := PoolState.getTimeout_inv h.pool newResource
  obtain ⟨hlive, hstale, hcreated, hqueue⟩ := getTimeout_other hturn hnone
  rw [hturn] at hpool
  refine ⟨hpool, ?_, h.own, ?_, ?_, h.committed⟩
  · intro c
    change c ∈ pool.live ↔ _
    rw [hlive]
    exact h.held c
  · intro c hc
    change s.active c = none ∨ c ∈ pool.stale
    rw [hstale]
    exact h.free c (hqueue c hc)
  · intro c hc
    exact h.fresh c (hcreated ▸ hc)

/-- Nothing is open on a connection that is handed out. -/
theorem Inv.handedOut (h : s.Inv) {newResource : Except ε Unit}
    (hturn : (s.pool.getTimeout newResource).1 = .resource connection) :
    s.active connection = none := by
  have hpair : s.pool.getTimeout newResource =
      (.resource connection, (s.pool.getTimeout newResource).2) := Prod.ext hturn rfl
  obtain ⟨-, -, -, -, ⟨hqueued, hfresh⟩ | hnew⟩ := getTimeout_resource hpair
  · exact (h.free connection hqueued).resolve_right hfresh
  · exact h.fresh connection (Nat.le_of_eq hnew.symm)

/-- Holding a connection that is handed out leaves what it is held for to be set up. -/
theorem inv_hold (h : s.Inv) {newResource : Except ε Unit} {pool : PoolState}
    (hturn : s.pool.getTimeout newResource = (.resource connection, pool)) (kind : HolderKind) :
    (s.hold pool connection kind).InvBut (· = connection) := by
  have hpool := PoolState.getTimeout_inv h.pool newResource
  obtain ⟨hlive, hstale, hcreated, hqueue, -⟩ := getTimeout_resource hturn
  rw [hturn] at hpool
  refine ⟨hpool, ?_, ?_, ?_, ?_, h.committed⟩
  · intro c
    change c ∈ pool.live ↔ (Function.update s.holder connection _ c).isSome = true
    rw [hlive, List.mem_cons, h.held]
    by_cases hc : c = connection
    · subst hc
      simp
    · simp [hc]
  · intro c holder hc hholder
    change Function.update s.holder connection _ c = some holder at hholder
    rw [Function.update_of_ne hc] at hholder
    exact h.own c holder not_false hholder
  · intro c hc
    change s.active c = none ∨ c ∈ pool.stale
    rw [hstale]
    exact h.free c (hqueue c hc)
  · intro c hc
    exact h.fresh c (Nat.le_trans hcreated hc)

/-- What is open on a connection that is held is its holder's own concern. -/
theorem invBut_setActive (h : s.InvBut (· = connection)) (hlive : connection ∈ s.pool.live)
    (x : Option OpenTransaction) :
    ({ s with active := Function.update s.active connection x } : TransactionState).InvBut
      (· = connection) := by
  refine ⟨h.pool, h.held, ?_, ?_, ?_, h.committed⟩
  · intro c holder hc hholder
    change Owned holder (Function.update s.active connection x c)
    rw [Function.update_of_ne hc]
    exact h.own c holder hc hholder
  · intro c hc
    have hne : c ≠ connection := by
      rintro rfl
      exact h.not_queued hlive hc
    change Function.update s.active connection x c = none ∨ _
    rw [Function.update_of_ne hne]
    exact h.free c hc
  · intro c hc
    have hne : c ≠ connection := by
      rintro rfl
      exact Nat.not_lt.mpr hc (h.lt_created hlive)
    change Function.update s.active connection x c = none
    rw [Function.update_of_ne hne]
    exact h.fresh c hc

/-- Setting up what a connection is held for completes the invariant. -/
theorem InvBut.setUp (h : s.InvBut (· = connection))
    (hown : ∀ holder, s.holder connection = some holder → Owned holder (s.active connection)) :
    s.Inv := by
  refine { h with own := fun c holder _ hholder => ?_ }
  by_cases hc : c = connection
  · subst hc
    exact hown holder hholder
  · exact h.own c holder hc hholder

theorem Inv.but (h : s.Inv) (P : Connection → Prop) : s.InvBut P :=
  { h with own := fun c holder _ => h.own c holder not_false }

/-- A turn hands something out or not. -/
theorem getTimeout_cases (p : PoolState) (newResource : Except ε Unit) :
    (∃ c pool, p.getTimeout newResource = (.resource c, pool)) ∨
      ∃ turn pool, p.getTimeout newResource = (turn, pool) ∧ ∀ c, turn ≠ .resource c := by
  obtain ⟨turn, pool⟩ := p.getTimeout newResource
  cases turn with
  | resource c => exact .inl ⟨c, pool, rfl⟩
  | failed e => exact .inr ⟨_, pool, rfl, fun _ => nofun⟩
  | wait => exact .inr ⟨_, pool, rfl, fun _ => nofun⟩

theorem begin_wait {newResource : Except ε Unit} {turn : Turn ε} {pool : PoolState}
    (hturn : s.pool.getTimeout newResource = (turn, pool)) (hnone : ∀ c, turn ≠ .resource c)
    (succeeds : Bool) : s.begin newResource succeeds = { s with pool := pool } := by
  unfold begin
  rw [hturn]
  cases turn with
  | resource c => exact absurd rfl (hnone c)
  | failed e => rfl
  | wait => rfl

/-- A transaction begins on the connection that is handed out, or it gives the connection back. -/
theorem begin_resource (h : s.Inv) {newResource : Except ε Unit} {pool : PoolState}
    (hturn : s.pool.getTimeout newResource = (.resource connection, pool)) (succeeds : Bool) :
    s.begin newResource succeeds =
      let held := s.hold pool connection .transaction
      if succeeds then
        { held with active := Function.update held.active connection (some ⟨s.nextRequest, []⟩) }
      else held.release connection := by
  have hclosed : (s.hold pool connection .transaction).active connection = none :=
    h.handedOut (congrArg Prod.fst hturn)
  unfold begin
  rw [hturn]
  dsimp only
  rw [beginOn]
  cases succeeds <;> simp [hclosed]

theorem inv_begin (h : s.Inv) (newResource : Except ε Unit) (succeeds : Bool) :
    (s.begin newResource succeeds).Inv := by
  rcases getTimeout_cases s.pool newResource with ⟨c, pool, hturn⟩ | ⟨turn, pool, hturn, hnone⟩
  · have hhold := inv_hold h hturn .transaction
    have hlive : c ∈ (s.hold pool c .transaction).pool.live := by
      change c ∈ pool.live
      rw [(getTimeout_resource hturn).1]
      exact List.mem_cons_self
    rw [begin_resource h hturn]
    cases succeeds with
    | true =>
        apply (invBut_setActive hhold hlive _).setUp
        intro holder hholder
        change Function.update s.holder c _ c = some holder at hholder
        change Owned holder (Function.update s.active c _ c)
        rw [Function.update_self] at hholder ⊢
        cases hholder
        exact ⟨_, rfl, rfl, by simp⟩
    | false => exact inv_release hhold hlive (.inl (h.handedOut (congrArg Prod.fst hturn)))
  · rw [begin_wait hturn hnone]
    exact inv_wait h hturn hnone

theorem inv_get (h : s.Inv) (newResource : Except ε Unit) : (s.get newResource).Inv := by
  unfold get
  rcases getTimeout_cases s.pool newResource with ⟨c, pool, hturn⟩ | ⟨turn, pool, hturn, hnone⟩
  · have hhold := inv_hold h hturn .plain
    have hclosed := h.handedOut (congrArg Prod.fst hturn)
    rw [hturn]
    apply hhold.setUp
    intro holder hholder
    change Function.update s.holder c _ c = some holder at hholder
    rw [Function.update_self] at hholder
    cases hholder
    exact hclosed
  · have hwait := inv_wait h hturn hnone
    rw [hturn]
    cases turn with
    | resource c => exact absurd rfl (hnone c)
    | failed e => exact hwait
    | wait => exact hwait

theorem Inv.live (h : s.Inv) (hholder : s.holder connection = some holder) :
    connection ∈ s.pool.live := by
  rw [h.held, hholder]
  rfl

theorem inv_execute (h : s.Inv) (connection : Connection) : (s.execute connection).Inv := by
  unfold execute
  split
  next holder x hholder hx =>
    apply (invBut_setActive (h.but _) (h.live hholder) _).setUp
    intro holder' hholder'
    cases hholder.symm.trans hholder'
    have hown := h.own connection holder not_false hholder
    change Owned holder (Function.update s.active connection _ connection)
    rw [Function.update_self]
    unfold Owned at hown ⊢
    rw [hx] at hown
    split at hown
    next => cases hown
    next hkind =>
      obtain ⟨_, ⟨⟩, hrequest, hwrites⟩ := hown
      rw [if_neg hkind]
      refine ⟨_, rfl, hrequest, ?_⟩
      intro writer hwriter
      rcases List.mem_append.mp hwriter with hwriter | hwriter
      · exact hwrites writer hwriter
      · exact List.mem_singleton.mp hwriter
  next holder hholder hx =>
    refine { h with committed := ?_ }
    intro write hwrite
    rcases List.mem_append.mp hwrite with hwrite | hwrite
    · exact h.committed write hwrite
    · rw [List.mem_singleton.mp hwrite]
  next => exact h

/-- A transaction that ends gives its connection back. -/
theorem inv_finish (h : s.Inv) (hholder : s.holder connection = some holder) (ending : Ending)
    (hcloses : ending = .failed true → connection ∈ s.pool.stale) :
    (s.finish connection ending).Inv := by
  have hlive := h.live hholder
  apply inv_release (invBut_setActive (h.but _) hlive _) hlive
  change Function.update s.active connection _ connection = none ∨ connection ∈ s.pool.stale
  rw [Function.update_self]
  cases ending with
  | done => exact .inl rfl
  | failed leftOpen =>
      cases leftOpen with
      | false => exact .inl rfl
      | true => exact .inr (hcloses rfl)

/-- The writes that a transaction commits are its own. -/
theorem inv_commit (h : s.Inv) (ending : Ending)
    (hcloses : ending = .failed true → connection ∈ s.pool.stale) :
    (s.commit connection ending).Inv := by
  unfold commit
  split
  next request hholder =>
    have hbooked : ({ s with committed := s.committed ++
        if ending = .done then s.pendingWrites connection request else [] } :
          TransactionState).Inv := by
      refine { h with committed := ?_ }
      intro write hwrite
      rcases List.mem_append.mp hwrite with hwrite | hwrite
      · exact h.committed write hwrite
      · obtain ⟨x, hx, -, hwrites⟩ := h.own connection _ not_false hholder
        split at hwrite
        · rw [pendingWrites, hx] at hwrite
          obtain ⟨writer, hwriter, rfl⟩ := List.mem_map.mp hwrite
          exact hwrites writer hwriter
        · cases hwrite
    exact inv_finish hbooked hholder ending hcloses
  next => exact h

theorem inv_rollback (h : s.Inv) (ending : Ending)
    (hcloses : ending = .failed true → connection ∈ s.pool.stale) :
    (s.rollback connection ending).Inv := by
  unfold rollback
  split
  next hholder => exact inv_finish h hholder ending hcloses
  next => exact h

theorem inv_runRollback (h : s.Inv) (ending : Ending)
    (hcloses : ending = .failed true → connection ∈ s.pool.stale) :
    (s.runRollback connection ending).Inv := by
  unfold runRollback
  split
  next hholder => exact inv_finish h hholder ending hcloses
  next => exact h

/-- The task of a dropped transaction owns what the transaction has owned. -/
theorem inv_dropTransaction (h : s.Inv) (connection : Connection) :
    (s.dropTransaction connection).Inv := by
  unfold dropTransaction
  split
  next request hholder =>
    have hown := h.own connection _ not_false hholder
    refine { h with held := fun c => ?_, own := fun c holder _ hc => ?_ }
    · change c ∈ s.pool.live ↔ (Function.update s.holder connection _ c).isSome = true
      rw [h.held]
      by_cases hc : c = connection
      · subst hc
        simp [hholder]
      · simp [hc]
    · change Function.update s.holder connection _ c = some holder at hc
      by_cases hne : c = connection
      · subst hne
        rw [Function.update_self] at hc
        cases hc
        exact hown
      · rw [Function.update_of_ne hne] at hc
        exact h.own c holder not_false hc
  next => exact h

theorem inv_put (h : s.Inv) (connection : Connection) : (s.put connection).Inv := by
  unfold put
  split
  next request hholder =>
    have hown : s.active connection = none := h.own connection _ not_false hholder
    exact inv_release (h.but _) (h.live hholder) (.inl hown)
  next => exact h

theorem step_inv (s : TransactionState) (a : Action ε) (h : s.Inv) (hcloses : s.Closes a) :
    (s.step a).Inv := by
  cases a with
  | begin newResource succeeds => exact inv_begin h newResource succeeds
  | get newResource => exact inv_get h newResource
  | execute connection => exact inv_execute h connection
  | commit connection ending =>
      apply inv_commit h ending
      rintro rfl
      exact hcloses
  | rollback connection ending =>
      apply inv_rollback h ending
      rintro rfl
      exact hcloses
  | drop connection => exact inv_dropTransaction h connection
  | runRollback connection ending =>
      apply inv_runRollback h ending
      rintro rfl
      exact hcloses
  | put connection => exact inv_put h connection
  | setStale connection =>
      have hpool := h.pool
      exact { h with
        pool := ⟨hpool.atLeast, hpool.room, hpool.exclusive, hpool.fresh⟩
        free := fun c hc => (h.free c hc).imp_right (List.mem_cons_of_mem connection) }

/-- The invariant gives the isolation. -/
theorem Inv.isolated (h : s.Inv) : s.Isolated where
  handedOut := fun _ _ hturn => h.handedOut hturn
  own := by
    rintro connection request (hholder | hholder)
    · exact h.own connection _ not_false hholder
    · exact h.own connection _ not_false hholder
  plain := fun connection _ hholder => h.own connection _ not_false hholder
  committed := h.committed
  begins := by
    intro _ newResource connection hturn
    have hpair : s.pool.getTimeout newResource =
        (.resource connection, (s.pool.getTimeout newResource).2) := Prod.ext hturn rfl
    rw [begin_resource h hpair]
    exact Function.update_self connection _ s.holder

/-- In every run in which the statements that end a transaction close it, failed or not, every
state is isolated. -/
theorem isolated_run (maxSize : Nat) (actions : List (Action ε))
    (h : Along step Closes (new maxSize) actions) :
    (run step (new maxSize) actions).Isolated :=
  Inv.isolated (@invariant_along TransactionState (Action ε) step Closes Inv step_inv _ _
    (inv_new maxSize) h)

theorem isolated_run_commit :
    (run step (new 1) [.begin (.ok () : Except String Unit) true, .execute 0, .commit 0 .done,
      .begin (.ok ()) true]).Isolated :=
  isolated_run 1 _ ⟨trivial, trivial, trivial, trivial, trivial⟩

/-- A commit fails on a busy database and leaves its transaction open: the next request gets its
connection and cannot begin, and what a request writes without a transaction is not its own. -/
theorem not_isolated_run :
    let actions : List (Action String) :=
      [.begin (.ok ()) true, .execute 0, .commit 0 (.failed true)]
    ¬ (run step (new 1) actions).Isolated ∧
      (run step (new 1) (actions ++ [.begin (.ok ()) true])).holder 0 = none ∧
      ¬ (run step (new 1) (actions ++ [.get (.ok ())])).Isolated := by
  refine ⟨fun h => ?_, rfl, fun h => ?_⟩
  · have hclosed := h.handedOut (.ok () : Except String Unit) 0 rfl
    cases hclosed
  · have hclosed := h.plain 0 1 rfl
    cases hclosed

end TransactionState

end Cdk
