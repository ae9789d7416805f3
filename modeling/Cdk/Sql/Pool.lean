import Mathlib.Data.List.Perm.Basic
import Cdk.Lib.Runs

/-!
# The connection pool

A pool hands out queued connections and creates new ones while fewer than
`max_size` are in use. The counter of connections in use is raised before a
connection is created and lowered when a pooled resource is dropped, and a
creation that fails leaves no resource to drop. A step of a run is one turn of
the loop of `get_timeout`, a drop, or a connection marked as stale by its owner.
-/

namespace Cdk

open Lib

/-- A connection, with the flag that is created and queued together with it, is known by the
number of its creation. -/
abbrev Connection := Nat

/-- The fields of the pool that change. The connection pushed last is the head of the queue. -/
structure Pool where
  maxSize : Nat
  queue : List Connection
  inUse : Nat
deriving DecidableEq, Repr

/-- A turn of the loop hands out a resource, fails with the error of the creation, or waits for a
resource to be released. -/
inductive Turn (ε : Type) where
  | resource (connection : Connection)
  | failed (error : ε)
  | wait
deriving DecidableEq, Repr

/-- A pool, the connections whose stale flag is set, how many connections were created, and the
connections of the pooled resources that are alive. -/
structure PoolState where
  pool : Pool
  stale : List Connection
  created : Nat
  live : List Connection
deriving DecidableEq, Repr

namespace PoolState

variable {ε : Type}

def new (maxSize : Nat) : PoolState := ⟨⟨maxSize, [], 0⟩, [], 0, []⟩

def incrementConnectionCounter (s : PoolState) : PoolState :=
  { s with pool := { s.pool with inUse := s.pool.inUse + 1 } }

/-- The part of a turn that did not find a usable connection in the queue. -/
def createOrWait (s : PoolState) (newResource : Except ε Unit) : Turn ε × PoolState :=
  if s.pool.inUse < s.pool.maxSize then
    let s' := s.incrementConnectionCounter
    match newResource with
    | .ok () =>
        (.resource s.created,
          { s' with created := s.created + 1, live := s.created :: s.live })
    -- no resource exists, so nothing lowers the counter again
    | .error e => (.failed e, s')
  else (.wait, s)

/-- One turn of the loop. A stale connection is dropped, and only one entry is popped. -/
def getTimeout (s : PoolState) (newResource : Except ε Unit) : Turn ε × PoolState :=
  match s.pool.queue with
  | [] => s.createOrWait newResource
  | connection :: rest =>
      let s' := { s with pool := { s.pool with queue := rest } }
      if s.stale.contains connection then s'.createOrWait newResource
      else
        (.resource connection,
          { s'.incrementConnectionCounter with live := connection :: s.live })

/-- Drop one of the live resources. -/
def drop (s : PoolState) (holder : Nat) : PoolState :=
  match s.live[holder]? with
  | none => s
  | some connection =>
      { s with
        pool := { s.pool with queue := connection :: s.pool.queue, inUse := s.pool.inUse - 1 }
        live := s.live.eraseIdx holder }

inductive Action (ε : Type) where
  | get (newResource : Except ε Unit)
  | drop (holder : Nat)
  | setStale (connection : Connection)

def step (s : PoolState) : Action ε → PoolState
  | .get newResource => (s.getTimeout newResource).2
  | .drop holder => s.drop holder
  | .setStale connection => { s with stale := connection :: s.stale }

/-- The next turn finds no usable connection in the queue. -/
def QueueFails (s : PoolState) : Prop :=
  ∀ connection, s.pool.queue.head? = some connection → s.stale.contains connection = true

/-- A get that has to create a connection and may, and whose creation fails. -/
def CreationFails (s : PoolState) : Action ε → Prop
  | .get (.error _) => s.QueueFails ∧ s.pool.inUse < s.pool.maxSize
  | _ => False

/-- The books of the pool are right. -/
structure Accounted (s : PoolState) : Prop where
  count : s.pool.inUse = s.live.length
  bounded : s.pool.inUse ≤ s.pool.maxSize
  exclusive : (s.live ++ s.pool.queue).Nodup
  served : s.live.length < s.pool.maxSize →
    ∀ {ε : Type} (newResource : Except ε Unit), (s.getTimeout newResource).1 ≠ .wait

/-- What holds after every run, failures included: the counter is at least the number of live
resources, and together with the queue it never exceeds the size of the pool. -/
structure Inv (s : PoolState) : Prop where
  atLeast : s.live.length ≤ s.pool.inUse
  room : s.pool.queue.length + s.pool.inUse ≤ s.pool.maxSize
  exclusive : (s.live ++ s.pool.queue).Nodup
  fresh : ∀ connection ∈ s.live ++ s.pool.queue, connection < s.created

theorem inv_new (maxSize : Nat) : (new maxSize).Inv where
  atLeast := Nat.le_refl 0
  room := by simp [new]
  exclusive := by simp [new]
  fresh := by simp [new]

variable {s : PoolState}

theorem createOrWait_inv (h : s.Inv) (hroom : s.pool.inUse < s.pool.maxSize →
    s.pool.queue.length + s.pool.inUse < s.pool.maxSize) (newResource : Except ε Unit) :
    (s.createOrWait newResource).2.Inv := by
  unfold createOrWait
  split
  next hlt =>
    have hle := hroom hlt
    cases newResource with
    | error e =>
        refine ⟨Nat.le_succ_of_le h.atLeast, ?_, h.exclusive, h.fresh⟩
        change s.pool.queue.length + (s.pool.inUse + 1) ≤ s.pool.maxSize
        omega
    | ok u =>
        have hnew : s.created ∉ s.live ++ s.pool.queue := fun hmem =>
          Nat.lt_irrefl _ (h.fresh _ hmem)
        refine ⟨Nat.succ_le_succ h.atLeast, ?_, List.nodup_cons.mpr ⟨hnew, h.exclusive⟩, ?_⟩
        · change s.pool.queue.length + (s.pool.inUse + 1) ≤ s.pool.maxSize
          omega
        · intro connection hmem
          rcases List.mem_cons.mp hmem with rfl | hmem
          · exact Nat.lt_succ_self _
          · exact Nat.lt_succ_of_lt (h.fresh connection hmem)
  next => exact h

/-- Popping the queue keeps the books. -/
theorem inv_pop (h : s.Inv) {connection : Connection} {rest : List Connection}
    (hqueue : s.pool.queue = connection :: rest) :
    ({ s with pool := { s.pool with queue := rest } } : PoolState).Inv := by
  have hsub : (s.live ++ rest).Sublist (s.live ++ s.pool.queue) :=
    hqueue ▸ List.Sublist.append_left (List.sublist_cons_self connection rest) s.live
  refine ⟨h.atLeast, ?_, hsub.nodup h.exclusive, fun c hc => h.fresh c (hsub.subset hc)⟩
  have hroom := h.room
  rw [hqueue, List.length_cons] at hroom
  change rest.length + s.pool.inUse ≤ s.pool.maxSize
  omega

theorem getTimeout_inv (h : s.Inv) (newResource : Except ε Unit) :
    (s.getTimeout newResource).2.Inv := by
  have hroom := h.room
  unfold getTimeout
  split
  next hqueue =>
    apply createOrWait_inv h
    intro hlt
    rw [hqueue, List.length_nil]
    omega
  next connection rest hqueue =>
    have hpop := inv_pop h hqueue
    rw [hqueue, List.length_cons] at hroom
    dsimp only
    split
    next =>
      apply createOrWait_inv hpop
      intro hlt
      change rest.length + s.pool.inUse < s.pool.maxSize
      omega
    next =>
      have hperm : (s.live ++ s.pool.queue).Perm (connection :: s.live ++ rest) :=
        hqueue ▸ List.perm_middle
      refine ⟨Nat.succ_le_succ h.atLeast, ?_, hperm.nodup_iff.mp h.exclusive,
        fun c hc => h.fresh c (hperm.mem_iff.mpr hc)⟩
      change rest.length + (s.pool.inUse + 1) ≤ s.pool.maxSize
      omega

theorem drop_inv (h : s.Inv) (holder : Nat) : (s.drop holder).Inv := by
  unfold drop
  split
  next => exact h
  next connection hget =>
    obtain ⟨hlt, hat⟩ := List.getElem?_eq_some_iff.mp hget
    have hlength := List.length_eraseIdx_add_one hlt
    have hperm : (s.live ++ s.pool.queue).Perm
        (s.live.eraseIdx holder ++ connection :: s.pool.queue) :=
      calc s.live ++ s.pool.queue
        _ |>.Perm (connection :: s.live.eraseIdx holder ++ s.pool.queue) :=
            (hat ▸ List.getElem_cons_eraseIdx_perm hlt).symm.append_right _
        _ |>.Perm (s.live.eraseIdx holder ++ connection :: s.pool.queue) :=
            List.perm_middle.symm
    have hle := h.atLeast
    have hroom := h.room
    refine ⟨?_, ?_, hperm.nodup_iff.mp h.exclusive, fun c hc => h.fresh c (hperm.mem_iff.mpr hc)⟩
    · change (s.live.eraseIdx holder).length ≤ s.pool.inUse - 1
      omega
    · change s.pool.queue.length + 1 + (s.pool.inUse - 1) ≤ s.pool.maxSize
      omega

theorem step_inv (s : PoolState) (a : Action ε) (h : s.Inv) : (s.step a).Inv := by
  cases a with
  | get newResource => exact getTimeout_inv h newResource
  | drop holder => exact drop_inv h holder
  | setStale connection => exact ⟨h.atLeast, h.room, h.exclusive, h.fresh⟩

theorem inv_run (maxSize : Nat) (actions : List (Action ε)) :
    (run step (new maxSize) actions).Inv :=
  @invariant_run PoolState (Action ε) step Inv step_inv _ (inv_new maxSize) actions

/-! ## The counter and the live resources -/

/-- The counter is exact after creating or waiting unless it was not before, or a creation
failed. -/
theorem createOrWait_count (h : s.live.length ≤ s.pool.inUse) (newResource : Except ε Unit) :
    (s.createOrWait newResource).2.pool.inUse = (s.createOrWait newResource).2.live.length ↔
      s.pool.inUse = s.live.length ∧
        ¬(s.pool.inUse < s.pool.maxSize ∧ ∃ e, newResource = .error e) := by
  unfold createOrWait
  by_cases hlt : s.pool.inUse < s.pool.maxSize
  · cases newResource with
    | error e =>
        have hne : s.pool.inUse + 1 ≠ s.live.length := by omega
        simp [hlt, incrementConnectionCounter, hne]
    | ok u => simp [hlt, incrementConnectionCounter]
  · simp [hlt]

theorem queueFails_nil (h : s.pool.queue = []) : s.QueueFails := by
  intro connection hhead
  simp [h] at hhead

theorem queueFails_cons {connection : Connection} {rest : List Connection}
    (h : s.pool.queue = connection :: rest) :
    s.QueueFails ↔ s.stale.contains connection = true := by
  simp [QueueFails, h]

theorem creationFails_get (newResource : Except ε Unit) :
    s.CreationFails (.get newResource) ↔
      s.QueueFails ∧ s.pool.inUse < s.pool.maxSize ∧ ∃ e, newResource = .error e := by
  cases newResource <;> simp [CreationFails]

theorem getTimeout_count (h : s.live.length ≤ s.pool.inUse) (newResource : Except ε Unit) :
    (s.getTimeout newResource).2.pool.inUse = (s.getTimeout newResource).2.live.length ↔
      s.pool.inUse = s.live.length ∧ ¬s.CreationFails (.get newResource) := by
  rw [creationFails_get]
  unfold getTimeout
  split
  next hqueue =>
    rw [createOrWait_count h]
    simp [queueFails_nil hqueue]
  next connection rest hqueue =>
    rw [queueFails_cons hqueue]
    dsimp only
    split
    next hstale =>
      rw [createOrWait_count (s := { s with pool := { s.pool with queue := rest } }) h]
      simp only [hstale, true_and]
    next hstale =>
      have hnot : ¬(s.stale.contains connection = true ∧ s.pool.inUse < s.pool.maxSize ∧
          ∃ e, newResource = .error e) := fun h => hstale h.1
      simp only [incrementConnectionCounter, List.length_cons, Nat.add_right_cancel_iff,
        iff_true_intro hnot, and_true]

theorem step_count (s : PoolState) (a : Action ε) (h : s.Inv) :
    (s.step a).pool.inUse = (s.step a).live.length ↔
      s.pool.inUse = s.live.length ∧ ¬s.CreationFails a := by
  cases a with
  | get newResource => exact getTimeout_count h.atLeast newResource
  | setStale connection => simp [step, CreationFails]
  | drop holder =>
      have hle := h.atLeast
      simp only [step, CreationFails, not_false_eq_true, and_true]
      unfold drop
      split
      next => rfl
      next connection hget =>
        obtain ⟨hlt, -⟩ := List.getElem?_eq_some_iff.mp hget
        have hlength := List.length_eraseIdx_add_one hlt
        change s.pool.inUse - 1 = (s.live.eraseIdx holder).length ↔ _
        omega

/-- A turn does not wait below the limit. -/
theorem getTimeout_ne_wait (h : s.pool.inUse < s.pool.maxSize) (newResource : Except ε Unit) :
    (s.getTimeout newResource).1 ≠ .wait := by
  have hcreate : ∀ s' : PoolState, s'.pool.inUse < s'.pool.maxSize →
      (s'.createOrWait newResource).1 ≠ .wait := by
    intro s' hlt
    unfold createOrWait
    cases newResource <;> simp [hlt]
  unfold getTimeout
  split
  next => exact hcreate s h
  next connection rest _ =>
    dsimp only
    split
    next => exact hcreate _ h
    next => simp

/-- The books are right as soon as the counter is. -/
theorem accounted_iff (h : s.Inv) : s.Accounted ↔ s.pool.inUse = s.live.length := by
  constructor
  · exact Accounted.count
  · intro hcount
    have hroom := h.room
    exact ⟨hcount, by omega, h.exclusive, fun hlt _ newResource =>
      getTimeout_ne_wait (hcount ▸ hlt) newResource⟩

/-- The books of the pool are right after a run exactly if no creation failed in it: a failed
creation keeps its place in the counter for good. -/
theorem accounted_run_iff (maxSize : Nat) (actions : List (Action ε)) :
    (run step (new maxSize) actions).Accounted ↔
      Along step (fun s a => ¬s.CreationFails a) (new maxSize) actions := by
  let Counted : PoolState → Prop := fun s => s.pool.inUse = s.live.length
  have hnew : Counted (new maxSize) := rfl
  have hrun := @run_iff_along PoolState (Action ε) step (fun s a => ¬s.CreationFails a) Inv Counted
    step_inv step_count _ (inv_new maxSize) actions
  rw [accounted_iff (inv_run maxSize actions)]
  exact hrun.trans (and_iff_right hnew)

/-- After one failed creation the pool of size one hands out nothing again. -/
theorem not_accounted_run :
    ¬∀ (maxSize : Nat) (actions : List (Action String)),
      (run step (new maxSize) actions).Accounted := by
  intro h
  have hwait := (h 1 [.get (.error "cannot open the database")]).served (by decide)
    (.ok () : Except String Unit)
  exact hwait (by decide)

end PoolState

end Cdk
