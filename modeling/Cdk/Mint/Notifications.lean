import Cdk.Mint.DatabaseSpec
import Cdk.PubSub.Delivery

/-!
# Notifications of proof states

A swap or a melt writes the states of its inputs in a transaction, spawns a
task for the notification of each of them, and commits. The backfill of a new
subscription is one more task, which reads the committed states and sends them
later. All tasks run in any order, and none is tied to a commit.

A notification is up to date if it tells the state that was published last, or
that was committed last where no open transaction has published one.
-/

namespace Cdk

open Lib

/-- The notification of a proof's state. -/
structure ProofState (Y : Type) where
  y : Y
  state : State
deriving DecidableEq, Repr

instance {Y : Type} : Event (ProofState Y) Y where
  getTopics event := [event.y]

/-- What a transaction does to the states of its proofs. -/
inductive ProofChange where
  /-- `SwapSaga::setup_swap` and `ProofWriter::add_proofs`. -/
  | setup
  /-- `SwapSaga::finalize` and `ProofWriter::update_proofs_states` with the state `Spent`. -/
  | finalize
  /-- `RemoveSwapSetup::execute` and the rollback of a `ProofWriter`, which publish nothing. -/
  | remove
deriving DecidableEq, Repr

namespace ProofChange

/-- The state of a row after the change, if the row is still there. -/
def result : ProofChange → Option State
  | setup => some .pending
  | finalize => some .spent
  | remove => none

/-- The rows that the statements of the change accept. -/
def allowed : ProofChange → Option State → Bool
  | setup, none => true
  | setup, some _ => false
  | finalize, some current => current.transitionAllowed .spent
  | finalize, none => false
  | remove, some current => current ≠ .spent
  | remove, none => false

theorem not_spent_of_allowed {change : ProofChange} {current : Option State}
    (h : change.allowed current) : current ≠ some .spent := by
  rintro rfl
  cases change <;> simp [allowed, State.transitionAllowed] at h

end ProofChange

/-! ## The changes in the database -/

namespace Db

/-- The state column of a proof. -/
def proofState (db : Db) (y : PublicKey) : Option State := (db.proofs.find? y).map ProofRow.state

/-- A transaction makes one change to the states of its proofs. -/
structure Changes (change : ProofChange) (ys : List PublicKey) (db db' : Db) : Prop where
  allowed : ∀ y ∈ ys, change.allowed (db.proofState y)
  result : ∀ y ∈ ys, db'.proofState y = change.result
  frame : ∀ y ∉ ys, db'.proofState y = db.proofState y

variable {env : Env} {db mid db' : Db} {u : Unit} {y : PublicKey} {ys : List PublicKey}
  {state : State} {original : List (Option State)}

theorem proofState_eq_some :
    db.proofState y = some state ↔ ∃ r ∈ db.proofs.rows, r.y = y ∧ r.state = state := by
  simp only [proofState, Option.map_eq_some_iff, Table.find?_eq_some, and_assoc]

theorem proofState_eq_none : db.proofState y = none ↔ ∀ r ∈ db.proofs.rows, r.y ≠ y := by
  rw [proofState, Option.map_eq_none_iff, Table.find?_eq_none]

/-- Other rows of a key are as before if the rows of the key are. -/
theorem proofState_congr
    (h : ∀ r, r.y = y → (r ∈ db'.proofs.rows ↔ r ∈ db.proofs.rows)) :
    db'.proofState y = db.proofState y := by
  refine Option.ext fun state => ?_
  rw [proofState_eq_some, proofState_eq_some]
  refine exists_congr fun r => ?_
  constructor
  · rintro ⟨hr, hy, hstate⟩
    exact ⟨(h r hy).mp hr, hy, hstate⟩
  · rintro ⟨hr, hy, hstate⟩
    exact ⟨(h r hy).mpr hr, hy, hstate⟩

/-- `setup_swap` and `ProofWriter::add_proofs` add their proofs and mark them pending. -/
theorem changes_setup {inputs : List Proof} {quoteId : Option QuoteId} {operation : Operation}
    (hadd : addProofs env inputs quoteId operation db = .ok (u, mid))
    (hys : ysOf env inputs = .ok ys)
    (hupd : updateProofsStates ys .pending mid = .ok (original, db')) :
    Changes .setup ys db db' := by
  obtain ⟨rows, t, hreserved, hkeys, hrows, rfl⟩ := reserve_ok hadd hys hupd
  have hfresh := (Table.fresh_of_append hrows).1
  refine ⟨fun y hy => ?_, fun y hy => ?_, fun y hy => proofState_congr fun r hr => ?_⟩
  · have hnone : db.proofState y = none :=
      proofState_eq_none.mpr fun r hr heq => hfresh r hr (by rw [hkeys, heq]; exact hy)
    rw [hnone]
    rfl
  · obtain ⟨r, hr, rfl⟩ := List.mem_map.mp (hkeys ▸ hy)
    exact proofState_eq_some.mpr ⟨r, by rw [hrows]; exact List.mem_append_right _ hr, rfl,
      (hreserved.pending r hr).1⟩
  · rw [hrows, List.mem_append]
    refine or_iff_left fun hmem => hy ?_
    rw [← hkeys, ← hr]
    exact List.mem_map_of_mem hmem

/-- `finalize` marks its proofs spent. -/
theorem changes_finalize (h : updateProofsStates ys .spent db = .ok (original, db')) :
    Changes .finalize ys db db' := by
  obtain ⟨hlen, hallowed, rfl⟩ := updateProofsStates_ok h
  refine ⟨fun y hy => ?_, fun y hy => ?_, fun y hy => proofState_congr fun r hr => ?_⟩
  · obtain ⟨r, hr, rfl⟩ := Table.exists_row_of_length hlen hy
    rw [proofState_eq_some.mpr ⟨r, hr, rfl, rfl⟩]
    exact hallowed r hr hy
  · obtain ⟨r, hr, rfl⟩ := Table.exists_row_of_length hlen hy
    exact proofState_eq_some.mpr ⟨setState ys .spent r, List.mem_map_of_mem hr, by simp,
      by simp [setState_state, hy]⟩
  · rw [Table.update_rows, List.mem_map]
    constructor
    · rintro ⟨r', hr', rfl⟩
      rw [setState_y] at hr
      rwa [setState, if_neg (hr ▸ hy)]
    · intro hmem
      exact ⟨r, hmem, if_neg (hr ▸ hy)⟩

/-- The compensation of a swap and the rollback of a melt remove their proofs. -/
theorem changes_remove (h : removeProofs ys db = .ok (u, db')) : Changes .remove ys db db' := by
  obtain ⟨hlen, rfl⟩ := removeProofs_ok h
  have hnodup : ((db.proofs.rows.filter (removable ys)).map ProofRow.y).Nodup :=
    (List.filter_sublist.map ProofRow.y).nodup db.proofs.nodup
  have hsub : (db.proofs.rows.filter (removable ys)).map ProofRow.y ⊆ ys := by
    intro y hy
    obtain ⟨r, hr, rfl⟩ := List.mem_map.mp hy
    have hremovable := (List.mem_filter.mp hr).2
    simp only [removable, decide_eq_true_eq] at hremovable
    exact hremovable.1
  have hperm : ((db.proofs.rows.filter (removable ys)).map ProofRow.y).Perm ys :=
    (List.subperm_of_subset hnodup hsub).perm_of_length_le (by simp [hlen])
  have hrow : ∀ y ∈ ys, ∃ r ∈ db.proofs.rows, r.y = y ∧ r.state ≠ .spent := by
    intro y hy
    obtain ⟨r, hr, rfl⟩ := List.mem_map.mp (hperm.mem_iff.mpr hy)
    obtain ⟨hmem, hremovable⟩ := List.mem_filter.mp hr
    simp only [removable, decide_eq_true_eq] at hremovable
    exact ⟨r, hmem, rfl, hremovable.2⟩
  refine ⟨fun y hy => ?_, fun y hy => ?_, fun y hy => proofState_congr fun r hr => ?_⟩
  · obtain ⟨r, hr, rfl, hstate⟩ := hrow y hy
    rw [proofState_eq_some.mpr ⟨r, hr, rfl, rfl⟩]
    simpa [ProofChange.allowed] using hstate
  · refine proofState_eq_none.mpr fun r hr heq => ?_
    obtain ⟨hmem, hkept⟩ := Table.mem_delete.mp hr
    obtain ⟨r', hr', hy', hstate⟩ := hrow y hy
    obtain rfl := Table.eq_of_key hr' hmem (hy'.trans heq.symm)
    simp [removable, hy', hy, hstate] at hkept
  · rw [Table.mem_delete, and_iff_left_iff_imp]
    intro _
    simp [removable, hr, hy]

end Db

/-! ## Rows, tasks and the hub -/

/-- A change by an open transaction. -/
structure OpenChange where
  writer : Nat
  change : ProofChange
  published : Bool
deriving DecidableEq, Repr

/-- The committed state of a proof, and the change of the transaction that locks its row. -/
structure StateRow where
  committed : Option State
  openChange : Option OpenChange
deriving DecidableEq, Repr

namespace StateRow

/-- The state that was published last or, where no open transaction has published one, committed
last. -/
def announced (r : StateRow) : Option State :=
  match r.openChange with
  | some ⟨_, change, true⟩ => change.result
  | _ => r.committed

def begin (r : StateRow) (writer : Nat) (change : ProofChange) : StateRow :=
  { r with openChange := some ⟨writer, change, false⟩ }

def commit (r : StateRow) : StateRow :=
  match r.openChange with
  | some o => ⟨o.change.result, none⟩
  | none => r

def abort (r : StateRow) : StateRow := { r with openChange := none }

/-- The change is ready to be committed. -/
def Ready (r : StateRow) : Prop :=
  ∀ o ∈ r.openChange, o.published ∨ o.change = .remove

instance (r : StateRow) : Decidable r.Ready :=
  inferInstanceAs (Decidable (∀ o ∈ r.openChange, o.published ∨ o.change = .remove))

variable {r : StateRow} {o : OpenChange}

theorem announced_of_none (h : r.openChange = none) : r.announced = r.committed := by
  rw [announced, h]

theorem announced_of_unpublished (h : r.openChange = some o) (hpublished : o.published = false) :
    r.announced = r.committed := by
  obtain ⟨writer, change, published⟩ := o
  subst hpublished
  rw [announced, h]

theorem announced_of_published (h : r.openChange = some o) (hpublished : o.published = true) :
    r.announced = o.change.result := by
  obtain ⟨writer, change, published⟩ := o
  subst hpublished
  rw [announced, h]

theorem commit_openChange (r : StateRow) : r.commit.openChange = none := by
  unfold commit
  split
  · rfl
  · assumption

theorem commit_of_none (h : r.openChange = none) : r.commit = r := by rw [commit, h]

theorem commit_of_some (h : r.openChange = some o) : r.commit = ⟨o.change.result, none⟩ := by
  rw [commit, h]

end StateRow

namespace Sink

variable {N E : Type}

def events (s : Sink N E) : List E := s.delivered.map Prod.snd

variable [DecidableEq E] {s : Sink N E} {event : E}

/-- The event is the one sent last, or the channel takes it. -/
def Takes (s : Sink N E) (event : E) : Prop := s.latest = some event ∨ s.HasRoom

instance (s : Sink N E) (event : E) : Decidable (s.Takes event) :=
  inferInstanceAs (Decidable (s.latest = some event ∨ s.HasRoom))

theorem send_events_of_eq (h : s.latest = some event) (name : N) :
    (s.send name event).events = s.events := by
  simp [send, h, events, delivered]

theorem send_events_of_ne (h : s.Takes event) (hne : s.latest ≠ some event) (name : N) :
    (s.send name event).events = s.events ++ [event] := by
  have hany : s.latest.any (· == event) = false := by
    cases hlatest : s.latest with
    | none => rfl
    | some last =>
        rw [hlatest, ne_eq, Option.some.injEq] at hne
        simpa using hne
  simp [events, send_delivered (h.resolve_left hne), hany]

end Sink

/-- The task that fetches the events of a new subscription. -/
inductive Backfill (Y : Type) where
  | unread (topics : List Y)
  | sending (events : List (ProofState Y))
deriving DecidableEq, Repr

namespace Backfill

variable {Y : Type}

/-- `MintPubSubSpec::get_events_from_db` for proof states. -/
def read (committed : Y → Option State) : Backfill Y → Backfill Y
  | unread topics => sending (topics.filterMap fun y => (committed y).map (⟨y, ·⟩))
  | sending events => sending events

/-- The backfill will send an event if the committed states stay as they are. -/
def WillSend (committed : Y → Option State) (event : ProofState Y) : Backfill Y → Prop
  | unread topics => event.y ∈ topics ∧ committed event.y = some event.state
  | sending events => event ∈ events

instance [DecidableEq Y] (committed : Y → Option State) (event : ProofState Y) :
    ∀ b : Backfill Y, Decidable (b.WillSend committed event)
  | unread topics =>
      inferInstanceAs (Decidable (event.y ∈ topics ∧ committed event.y = some event.state))
  | sending events => inferInstanceAs (Decidable (event ∈ events))

/-- A backfill sends states of the given proofs only. -/
def Within (topics : List Y) : Backfill Y → Prop
  | unread asked => ∀ y ∈ asked, y ∈ topics
  | sending events => ∀ event ∈ events, event.y ∈ topics

variable {committed : Y → Option State} {b : Backfill Y} {event : ProofState Y} {topics : List Y}

theorem willSend_read (h : b.WillSend committed event) (later : Y → Option State) :
    (b.read committed).WillSend later event := by
  cases b with
  | unread asked =>
      obtain ⟨hasked, hstate⟩ := h
      exact List.mem_filterMap.mpr ⟨event.y, hasked, by rw [hstate]; rfl⟩
  | sending events => exact h

theorem within_read (h : b.Within topics) (committed : Y → Option State) :
    (b.read committed).Within topics := by
  cases b with
  | unread asked =>
      intro event hevent
      obtain ⟨y, hy, hmap⟩ := List.mem_filterMap.mp hevent
      obtain ⟨state, -, rfl⟩ := Option.map_eq_some_iff.mp hmap
      exact h y hy
  | sending events => exact h

end Backfill

/-- The hub of the mint, its tasks and the states of the proofs. -/
structure MintNotifications (Y N : Type) [LinearOrder Y] where
  rows : Y → StateRow
  /-- The proofs of each open transaction. -/
  writes : Nat → List Y
  hub : Subscriptions Y N (ProofState Y)
  /-- The tasks of `Pubsub::publish`. -/
  spawned : List (ProofState Y)
  /-- The tasks of `Pubsub::subscribe`, each under the id of its subscription. -/
  backfills : Nat → Backfill Y

inductive NotificationAction (Y N : Type) where
  | begin (writer : Nat) (change : ProofChange) (ys : List Y)
  | publish (writer : Nat) (y : Y)
  | commit (writer : Nat)
  | abort (writer : Nat)
  | runSpawned (index : Nat)
  | subscribe (request : SubscriptionRequest Y N)
  | recv (id : Nat)
  | drop (id : Nat)
  | readBackfill (id : Nat)
  | sendBackfill (id : Nat)

namespace MintNotifications

variable {Y N : Type} [LinearOrder Y]

/-- No transaction, subscription or task, over any committed states. -/
def new (committed : Y → Option State) : MintNotifications Y N :=
  ⟨fun y => ⟨committed y, none⟩, fun _ => [], .new, [], fun _ => .sending []⟩

/-- A transaction gets its row locks and makes its change. -/
def begin (s : MintNotifications Y N) (writer : Nat) (change : ProofChange) (ys : List Y) :
    MintNotifications Y N :=
  if s.writes writer = [] ∧ ∀ y ∈ ys, (s.rows y).openChange = none ∧
      change.allowed (s.rows y).committed then
    { s with
      rows := fun y => if y ∈ ys then (s.rows y).begin writer change else s.rows y
      writes := Function.update s.writes writer ys }
  else s

/-- `PubSubManager::proof_state` inside of an open transaction. -/
def publish (s : MintNotifications Y N) (writer : Nat) (y : Y) : MintNotifications Y N :=
  match (s.rows y).openChange with
  | some ⟨owner, change, false⟩ =>
      match change.result with
      | some state =>
          if owner = writer then
            { s with
              rows := Function.update s.rows y
                { s.rows y with openChange := some ⟨owner, change, true⟩ }
              spawned := s.spawned ++ [⟨y, state⟩] }
          else s
      | none => s
  | _ => s

def commit (s : MintNotifications Y N) (writer : Nat) : MintNotifications Y N :=
  if ∀ y ∈ s.writes writer, (s.rows y).Ready then
    { s with
      rows := fun y => if y ∈ s.writes writer then (s.rows y).commit else s.rows y
      writes := Function.update s.writes writer [] }
  else s

def abort (s : MintNotifications Y N) (writer : Nat) : MintNotifications Y N :=
  { s with
    rows := fun y => if y ∈ s.writes writer then (s.rows y).abort else s.rows y
    writes := Function.update s.writes writer [] }

/-- A task of `Pubsub::publish` runs. -/
def runSpawned (s : MintNotifications Y N) (index : Nat) : MintNotifications Y N :=
  match s.spawned[index]? with
  | none => s
  | some event =>
      { s with
        hub := s.hub.step (.publishNow event)
        spawned := s.spawned.eraseIdx index }

/-- A subscribe spawns a backfill if its topics parse. -/
def subscribe (s : MintNotifications Y N) (request : SubscriptionRequest Y N) :
    MintNotifications Y N :=
  { s with
    hub := s.hub.step (.subscribe request)
    backfills := match request.tryGetTopics with
      | .ok topics =>
          Function.update s.backfills s.hub.pubsub.uniqueSubscriptionCounter (.unread topics)
      | .error _ => s.backfills }

/-- A backfill sends its next event. The receiver of a dropped subscription is gone. -/
def sendBackfill (s : MintNotifications Y N) (id : Nat) : MintNotifications Y N :=
  match s.backfills id with
  | .sending (event :: rest) =>
      { s with
        hub := match s.hub.held.find? (·.id = id) with
          | some subscription =>
              { s.hub with pubsub := { s.hub.pubsub with
                  sinks := subscription.sender.send event s.hub.pubsub.sinks } }
          | none => s.hub
        backfills := Function.update s.backfills id (.sending rest) }
  | _ => s

def step (s : MintNotifications Y N) : NotificationAction Y N → MintNotifications Y N
  | .begin writer change ys => s.begin writer change ys
  | .publish writer y => s.publish writer y
  | .commit writer => s.commit writer
  | .abort writer => s.abort writer
  | .runSpawned index => s.runSpawned index
  | .subscribe request => s.subscribe request
  | .recv id => { s with hub := s.hub.step (.recv id) }
  | .drop id => { s with hub := s.hub.step (.drop id) }
  | .readBackfill id =>
      { s with
        backfills := Function.update s.backfills id
          ((s.backfills id).read fun y => (s.rows y).committed) }
  | .sendBackfill id => s.sendBackfill id

/-! ## What a subscriber has been told -/

/-- The notifications that a subscriber has got or will get from its channel. -/
def received (s : MintNotifications Y N) (id : Nat) : List (ProofState Y) :=
  (s.hub.pubsub.sinks id).events

end MintNotifications

section Received

variable {Y N : Type} [DecidableEq Y]

/-- The last state told of a proof. -/
def lastState (events : List (ProofState Y)) (y : Y) : Option State :=
  ((events.filter (·.y = y)).getLast?).map ProofState.state

/-- No other state of a proof is told after `Spent`. -/
def SpentIsFinal (events : List (ProofState Y)) : Prop :=
  events.Pairwise fun a b => a.y = b.y → a.state = .spent → b.state = .spent

variable {events : List (ProofState Y)} {event : ProofState Y} {y : Y} {state : State}

@[simp] theorem lastState_nil : lastState ([] : List (ProofState Y)) y = none := rfl

theorem lastState_append :
    lastState (events ++ [event]) y = if event.y = y then some event.state
      else lastState events y := by
  by_cases h : event.y = y <;> simp [lastState, h]

theorem lastState_mem (h : lastState events y = some state) : ⟨y, state⟩ ∈ events := by
  obtain ⟨event, hlast, rfl⟩ := Option.map_eq_some_iff.mp h
  obtain ⟨hmem, hy⟩ := List.mem_filter.mp (List.mem_of_getLast? hlast)
  rwa [← of_decide_eq_true hy]

/-- What was once told spent is told spent last. -/
theorem SpentIsFinal.lastState (h : SpentIsFinal events) (hmem : ⟨y, .spent⟩ ∈ events) :
    lastState events y = some .spent := by
  induction events using List.reverseRecOn with
  | nil => simp at hmem
  | append_singleton rest last ih =>
      obtain ⟨hrest, -, hlast⟩ := List.pairwise_append.mp h
      rw [lastState_append]
      split
      · next hy =>
          rcases List.mem_append.mp hmem with hmem | hmem
          · rw [hlast _ hmem last (List.mem_singleton_self last) hy.symm rfl]
          · rw [← List.mem_singleton.mp hmem]
      · next hy =>
          refine ih hrest ((List.mem_append.mp hmem).resolve_right fun hmem => hy ?_)
          rw [← List.mem_singleton.mp hmem]

end Received

section Told

variable {Y N : Type} [DecidableEq Y]

/-- A spawned publication or the backfill of the subscription will tell the announced state. -/
def Corrected (announced committed : Y → Option State) (spawned : List (ProofState Y))
    (backfill : Backfill Y) (y : Y) : Prop :=
  match announced y with
  | some state => ⟨y, state⟩ ∈ spawned ∨ backfill.WillSend committed ⟨y, state⟩
  | none => False

instance (announced committed : Y → Option State) (spawned : List (ProofState Y))
    (backfill : Backfill Y) (y : Y) :
    Decidable (Corrected announced committed spawned backfill y) :=
  match h : announced y with
  | some state =>
      decidable_of_iff (⟨y, state⟩ ∈ spawned ∨ backfill.WillSend committed ⟨y, state⟩)
        (by rw [Corrected, h])
  | none => isFalse (by rw [Corrected, h]; exact id)

/-- The subscriber has been told the announced states, except for those that it will be told. -/
structure Told (announced committed : Y → Option State) (spawned : List (ProofState Y))
    (backfill : Backfill Y) (topics : List Y) (sink : Sink N (ProofState Y)) : Prop where
  latest : sink.latest = sink.events.getLast?
  own : ∀ event ∈ sink.events, event.y ∈ topics
  within : backfill.Within topics
  settled : ∀ y state, lastState sink.events y = some state →
    announced y = some state ∨ Corrected announced committed spawned backfill y
  spent : ∀ y, lastState sink.events y = some .spent → announced y = some .spent
  final : SpentIsFinal sink.events

/-- A notification may be sent: the channel takes it, and it is up to date or, told to a subscriber
that has not been told `Spent`, will be corrected. -/
def MaySend (announced committed : Y → Option State) (spawned : List (ProofState Y))
    (backfill : Backfill Y) (sink : Sink N (ProofState Y)) (event : ProofState Y) : Prop :=
  sink.Takes event ∧ (announced event.y = some event.state ∨
    event.state ≠ .spent ∧ lastState sink.events event.y ≠ some .spent ∧
      Corrected announced committed spawned backfill event.y)

instance (announced committed : Y → Option State) (spawned : List (ProofState Y))
    (backfill : Backfill Y) (sink : Sink N (ProofState Y)) (event : ProofState Y) :
    Decidable (MaySend announced committed spawned backfill sink event) :=
  inferInstanceAs (Decidable (sink.Takes event ∧ (announced event.y = some event.state ∨
    event.state ≠ .spent ∧ lastState sink.events event.y ≠ some .spent ∧
      Corrected announced committed spawned backfill event.y)))

variable {announced committed announced' committed' : Y → Option State}
  {spawned spawned' : List (ProofState Y)} {b b' : Backfill Y} {topics : List Y}
  {sink sink' : Sink N (ProofState Y)} {y : Y} {event : ProofState Y}

omit [DecidableEq Y] in
theorem corrected_iff : Corrected announced committed spawned b y ↔
    ∃ state, announced y = some state ∧
      (⟨y, state⟩ ∈ spawned ∨ b.WillSend committed ⟨y, state⟩) := by
  unfold Corrected
  cases announced y <;> simp

/-- A new subscription has been told nothing. -/
theorem told_new : Told announced committed spawned (.unread topics) topics
    (.new : Sink N (ProofState Y)) := by
  refine ⟨rfl, ?_, fun y hy => hy, ?_, ?_, List.Pairwise.nil⟩ <;> simp [Sink.events]

theorem Told.lastState_of_not_mem (h : Told announced committed spawned b topics sink)
    (hy : y ∉ topics) : lastState sink.events y = none := by
  cases hlast : lastState sink.events y with
  | none => rfl
  | some state => exact absurd (h.own _ (lastState_mem hlast)) hy

theorem Told.of_sink (h : Told announced committed spawned b topics sink)
    (hlatest : sink'.latest = sink.latest) (hdelivered : sink'.delivered = sink.delivered) :
    Told announced committed spawned b topics sink' := by
  have hevents : sink'.events = sink.events := by rw [Sink.events, hdelivered, Sink.events]
  exact ⟨by rw [hlatest, h.latest, hevents], by rw [hevents]; exact h.own, h.within,
    by rw [hevents]; exact h.settled, by rw [hevents]; exact h.spent, by rw [hevents]; exact h.final⟩

/-- The states may change as they have been announced, where nothing has been told, and to what has
been told. -/
theorem Told.states (h : Told announced committed spawned b topics sink)
    (hstates : ∀ y, announced' y = announced y ∧
        (committed' y = committed y ∨ committed' y = announced y) ∨
      lastState sink.events y = none ∨ lastState sink.events y = announced' y) :
    Told announced' committed' spawned b topics sink := by
  refine ⟨h.latest, h.own, h.within, fun y state hlast => ?_, fun y hlast => ?_, h.final⟩
  · obtain ⟨hannounced, hcommitted⟩ | hnone | htold := hstates y
    · rw [corrected_iff, hannounced]
      refine (h.settled y state hlast).imp_right fun hcorrected => ?_
      obtain ⟨new, hnew, hsend⟩ := corrected_iff.mp hcorrected
      refine ⟨new, hnew, hsend.imp_right fun hsend => ?_⟩
      cases b with
      | unread asked =>
          refine ⟨hsend.1, ?_⟩
          obtain hsame | hsame := hcommitted
          · exact hsame.trans hsend.2
          · exact hsame.trans hnew
      | sending events => exact hsend
    · rw [hnone] at hlast
      cases hlast
    · exact Or.inl (htold.symm.trans hlast)
  · obtain ⟨hannounced, -⟩ | hnone | htold := hstates y
    · exact hannounced.trans (h.spent y hlast)
    · rw [hnone] at hlast
      cases hlast
    · exact htold.symm.trans hlast

/-- A state is published that is not yet told. -/
theorem Told.publish (h : Told announced committed spawned b topics sink)
    (hspent : announced y ≠ some .spent) (state : State) :
    Told (Function.update announced y (some state)) committed (spawned ++ [⟨y, state⟩]) b topics
      sink := by
  refine ⟨h.latest, h.own, h.within, fun other told hlast => ?_, fun other hlast => ?_, h.final⟩
  · rw [corrected_iff]
    by_cases heq : other = y
    · subst heq
      exact Or.inr ⟨state, by simp, Or.inl (by simp)⟩
    · rw [Function.update_of_ne heq]
      refine (h.settled other told hlast).imp_right fun hcorrected => ?_
      obtain ⟨new, hnew, hsend⟩ := corrected_iff.mp hcorrected
      exact ⟨new, hnew, hsend.imp_left fun hmem => List.mem_append.mpr (Or.inl hmem)⟩
  · have hne : other ≠ y := by
      rintro rfl
      exact hspent (h.spent other hlast)
    rw [Function.update_of_ne hne]
    exact h.spent other hlast

/-- A task may go that tells of a proof outside of the topics. -/
theorem Told.of_spawned (h : Told announced committed spawned b topics sink)
    (hevent : event.y ∉ topics) (hkeep : ∀ e ∈ spawned, e ≠ event → e ∈ spawned') :
    Told announced committed spawned' b topics sink := by
  refine ⟨h.latest, h.own, h.within, fun y state hlast => ?_, h.spent, h.final⟩
  refine (h.settled y state hlast).imp_right fun hcorrected => ?_
  obtain ⟨new, hnew, hsend⟩ := corrected_iff.mp hcorrected
  have hown : y ∈ topics := h.own ⟨y, state⟩ (lastState_mem hlast)
  refine corrected_iff.mpr ⟨new, hnew, hsend.imp_left fun hmem => hkeep _ hmem ?_⟩
  rintro rfl
  exact hevent hown

/-- The backfill may read the committed states. -/
theorem Told.read (h : Told announced committed spawned b topics sink) :
    Told announced committed spawned (b.read committed) topics sink := by
  refine ⟨h.latest, h.own, Backfill.within_read h.within committed, fun y state hlast => ?_,
    h.spent, h.final⟩
  refine (h.settled y state hlast).imp_right fun hcorrected => ?_
  obtain ⟨new, hnew, hsend⟩ := corrected_iff.mp hcorrected
  exact corrected_iff.mpr ⟨new, hnew, hsend.imp_right fun hsend =>
    Backfill.willSend_read hsend committed⟩

/-- What is told when a notification is sent: nothing new where it equals the one before. -/
theorem Told.send_events (h : Told announced committed spawned b topics sink)
    (htakes : sink.Takes event) (name : N) :
    ((sink.send name event).events = sink.events ∨
        (sink.send name event).events = sink.events ++ [event]) ∧
      (sink.send name event).events.getLast? = some event := by
  by_cases heq : sink.latest = some event
  · have hsame := Sink.send_events_of_eq heq name
    exact ⟨Or.inl hsame, by rw [hsame, ← h.latest, heq]⟩
  · have happend := Sink.send_events_of_ne htakes heq name
    exact ⟨Or.inr happend, by rw [happend, List.getLast?_concat]⟩

theorem Told.send_lastState (h : Told announced committed spawned b topics sink)
    (htakes : sink.Takes event) (name : N) (y : Y) :
    lastState (sink.send name event).events y =
      if event.y = y then some event.state else lastState sink.events y := by
  obtain ⟨hsame | happend, hlast⟩ := h.send_events htakes name
  · rw [hsame] at hlast ⊢
    obtain ⟨init, hinit⟩ := List.getLast?_eq_some_iff.mp hlast
    rw [hinit, lastState_append]
    split <;> rfl
  · rw [happend, lastState_append]

theorem Told.send_final (h : Told announced committed spawned b topics sink)
    (hmay : MaySend announced committed spawned' b' sink event) (name : N) :
    SpentIsFinal (sink.send name event).events := by
  obtain ⟨hsame | happend, -⟩ := h.send_events hmay.1 name
  · rw [hsame]
    exact h.final
  · rw [happend]
    refine List.pairwise_append.mpr ⟨h.final, List.pairwise_singleton _ _, ?_⟩
    rintro ⟨y, state⟩ hmem later hlater rfl rfl
    rw [List.mem_singleton] at hlater
    subst hlater
    have htold := h.final.lastState hmem
    obtain hannounced | ⟨-, hnot, -⟩ := hmay.2
    · rw [h.spent _ htold] at hannounced
      exact (Option.some.inj hannounced).symm
    · exact absurd htold hnot

/-- A notification that may be sent is sent, and its task or its place in the backfill goes. -/
theorem Told.send (h : Told announced committed spawned b topics sink) (htopic : event.y ∈ topics)
    (hmay : MaySend announced committed spawned' b' sink event) (hwithin : b'.Within topics)
    (hkeep : ∀ e, e ≠ event → (e ∈ spawned ∨ b.WillSend committed e) →
      (e ∈ spawned' ∨ b'.WillSend committed e)) (name : N) :
    Told announced committed spawned' b' topics (sink.send name event) := by
  obtain ⟨hevents, hlast⟩ := h.send_events hmay.1 name
  refine ⟨by rw [Sink.send_latest, hlast], fun e he => ?_, hwithin, fun y state htold => ?_,
    fun y htold => ?_, h.send_final hmay name⟩
  · obtain hsame | happend := hevents
    · rw [hsame] at he
      exact h.own e he
    · rw [happend, List.mem_append, List.mem_singleton] at he
      obtain he | rfl := he
      · exact h.own e he
      · exact htopic
  · rw [h.send_lastState hmay.1] at htold
    split at htold
    · next hy =>
        subst hy
        rw [← htold]
        exact hmay.2.imp_right fun hcorrected => hcorrected.2.2
    · next hy =>
        refine (h.settled y state htold).imp_right fun hcorrected => ?_
        obtain ⟨new, hnew, hsend⟩ := corrected_iff.mp hcorrected
        refine corrected_iff.mpr ⟨new, hnew, hkeep _ ?_ hsend⟩
        rintro rfl
        exact hy rfl
  · rw [h.send_lastState hmay.1] at htold
    split at htold
    · next hy =>
        subst hy
        obtain hannounced | ⟨hnot, -⟩ := hmay.2
        · exact hannounced.trans htold
        · exact absurd (Option.some.inj htold) hnot
    · exact h.spent y htold

end Told

end Cdk
