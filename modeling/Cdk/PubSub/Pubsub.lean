import Mathlib.Data.List.Destutter
import Mathlib.Logic.Function.Basic
import Cdk.Lib.OrderedMap
import Cdk.Lib.Runs

/-!
# The event hub

All subscriptions share one ordered map from a topic and the id of a
subscription to its subscriber. A publication walks the range of each of its
topics and keeps the ids that it has served.

The clones of a subscriber share the event that was sent last and the channel.
-/

namespace Cdk

open Lib

/-- `DEFAULT_CHANNEL_SIZE`. -/
def defaultChannelSize : Nat := 10000

/-- What a publication is matched by. -/
class Event (E : Type) (T : outParam Type) where
  getTopics : E → List T

inductive PubSubError where
  | noSubscription
  | parsingError (text : String)
  | internal
  | internalStr (text : String)
  | notSupported
  | channelFull
  | channelClosed
deriving DecidableEq, Repr

/-- What a caller asks for: a name, and the topics if they parse. -/
structure SubscriptionRequest (T N : Type) where
  subscriptionName : N
  tryGetTopics : Except PubSubError (List T)

/-- What the clones of a subscriber share: the event sent last and the channel, with the messages
that wait in it and those that its receiver has taken. -/
structure Sink (N E : Type) where
  latest : Option E
  buffer : List (N × E)
  taken : List (N × E)
deriving DecidableEq

namespace Sink

variable {N E : Type}

def new : Sink N E := ⟨none, [], []⟩

/-- Everything that the receiver has got or will get. -/
def delivered (s : Sink N E) : List (N × E) := s.taken ++ s.buffer

def HasRoom (s : Sink N E) : Prop := s.buffer.length < defaultChannelSize

instance (s : Sink N E) : Decidable s.HasRoom :=
  inferInstanceAs (Decidable (s.buffer.length < defaultChannelSize))

/-- `try_send`, whose result the callers ignore. -/
def trySend (s : Sink N E) (message : N × E) : Sink N E :=
  if s.HasRoom then { s with buffer := s.buffer ++ [message] } else s

/-- `Subscriber::send`: an event equal to the last one is not sent again. -/
def send [BEq E] (s : Sink N E) (subscription : N) (event : E) : Sink N E :=
  let replaced := { s with latest := some event }
  if s.latest.any (· == event) then replaced else replaced.trySend (subscription, event)

def tryRecv (s : Sink N E) : Sink N E :=
  match s.buffer with
  | [] => s
  | message :: rest => { s with buffer := rest, taken := s.taken ++ [message] }

@[simp] theorem new_latest : (new : Sink N E).latest = none := rfl

@[simp] theorem new_delivered : (new : Sink N E).delivered = [] := rfl

@[simp] theorem tryRecv_latest (s : Sink N E) : s.tryRecv.latest = s.latest := by
  unfold tryRecv
  split <;> rfl

/-- Receiving delivers nothing new. -/
@[simp] theorem tryRecv_delivered (s : Sink N E) : s.tryRecv.delivered = s.delivered := by
  unfold tryRecv
  split
  · rfl
  · next h => simp [delivered, h]

@[simp] theorem send_latest [BEq E] (s : Sink N E) (subscription : N) (event : E) :
    (s.send subscription event).latest = some event := by
  dsimp only [send, trySend]
  split
  · rfl
  · split <;> rfl

theorem send_delivered [BEq E] {s : Sink N E} (h : s.HasRoom) (subscription : N) (event : E) :
    (s.send subscription event).delivered =
      s.delivered ++ if s.latest.any (· == event) then [] else [(subscription, event)] := by
  unfold send
  split
  · simp [delivered]
  · rw [trySend, if_pos (show Sink.HasRoom { s with latest := some event } from h)]
    simp [delivered]

end Sink

/-- A sender of events to one subscription; clones point at one sink. -/
structure Subscriber (N : Type) where
  subscription : N
  sink : Nat
deriving DecidableEq, Repr

def Subscriber.send {N E : Type} [BEq E] (sender : Subscriber N) (event : E)
    (sinks : Nat → Sink N E) : Nat → Sink N E :=
  Function.update sinks sender.sink ((sinks sender.sink).send sender.subscription event)

/-- A subscription that its caller holds. Its receiver is the one of the sink under its id. -/
structure ActiveSubscription (T N : Type) where
  id : Nat
  name : N
  subscribedTo : List T
deriving DecidableEq, Repr

def ActiveSubscription.sender {T N : Type} (subscription : ActiveSubscription T N) :
    Subscriber N :=
  ⟨subscription.name, subscription.id⟩

/-- The hub, with the sinks of all the subscribers it has made. -/
structure Pubsub (T N E : Type) [LinearOrder T] where
  listenersTopics : OrderedMap (T ×ₗ Nat) (Subscriber N)
  uniqueSubscriptionCounter : Nat
  activeSubscribers : Nat
  sinks : Nat → Sink N E

namespace Pubsub

variable {T N E : Type} [LinearOrder T]

def new : Pubsub T N E := ⟨.empty, 0, 0, fun _ => .new⟩

section Publishing

variable [BEq E]

/-- Send an event to a listener, unless its id has been served. -/
def serve (event : E) (acc : List Nat × (Nat → Sink N E)) (entry : (T ×ₗ Nat) × Subscriber N) :
    List Nat × (Nat → Sink N E) :=
  let uniqueId := (ofLex entry.1).2
  if uniqueId ∈ acc.1 then acc else (uniqueId :: acc.1, entry.2.send event acc.2)

/-- Serve the range of a topic, up to the first entry of another one. -/
def serveTopic (s : Pubsub T N E) (event : E) (acc : List Nat × (Nat → Sink N E)) (topic : T) :
    List Nat × (Nat → Sink N E) :=
  ((s.listenersTopics.rangeFrom (toLex (topic, 0))).takeWhile
    (fun entry => (ofLex entry.1).1 = topic)).foldl (serve event) acc

def publishInternal [Event E T] (s : Pubsub T N E) (event : E) : Pubsub T N E :=
  { s with sinks := ((Event.getTopics event).foldl (s.serveTopic event) ([], s.sinks)).2 }

end Publishing

/-- `Pubsub::subscribe`: the id and the counter are taken before the topics are parsed. -/
def subscribe (s : Pubsub T N E) (request : SubscriptionRequest T N) :
    Except PubSubError (ActiveSubscription T N) × Pubsub T N E :=
  let id := s.uniqueSubscriptionCounter
  let sender : Subscriber N := ⟨request.subscriptionName, id⟩
  let counted := { s with
    uniqueSubscriptionCounter := s.uniqueSubscriptionCounter + 1
    activeSubscribers := s.activeSubscribers + 1
    sinks := Function.update s.sinks id .new }
  match request.tryGetTopics with
  | .error e => (.error e, counted)
  | .ok subscribedTo =>
      (.ok ⟨id, request.subscriptionName, subscribedTo⟩,
        { counted with
          listenersTopics := subscribedTo.foldl
            (fun listeners index => listeners.insert (toLex (index, id)) sender)
            s.listenersTopics })

/-- `Drop` of an active subscription. -/
def dropSubscription (s : Pubsub T N E) (subscription : ActiveSubscription T N) :
    Pubsub T N E :=
  { s with
    listenersTopics := subscription.subscribedTo.foldl
      (fun listeners index => listeners.remove (toLex (index, subscription.id)))
      s.listenersTopics
    activeSubscribers := s.activeSubscribers - 1 }

/-- The tree holds exactly the topics of the given subscriptions, whose ids are taken and pairwise
different. -/
structure Registered (s : Pubsub T N E) (held : List (ActiveSubscription T N)) : Prop where
  listeners : ∀ entry, entry ∈ s.listenersTopics.entries ↔
    ∃ subscription ∈ held, (ofLex entry.1).1 ∈ subscription.subscribedTo ∧
      (ofLex entry.1).2 = subscription.id ∧ entry.2 = subscription.sender
  ids_nodup : (held.map ActiveSubscription.id).Nodup
  ids_lt : ∀ subscription ∈ held, subscription.id < s.uniqueSubscriptionCounter

theorem registered_new : (new : Pubsub T N E).Registered [] where
  listeners := by simp [new]
  ids_nodup := List.nodup_nil
  ids_lt := by simp

variable {s : Pubsub T N E} {held : List (ActiveSubscription T N)}
  {subscription : ActiveSubscription T N}

theorem Registered.eq_of_id (h : s.Registered held) {other : ActiveSubscription T N}
    (hs : subscription ∈ held) (ho : other ∈ held) (hid : subscription.id = other.id) :
    subscription = other :=
  List.inj_on_of_nodup_map h.ids_nodup hs ho hid

variable {request : SubscriptionRequest T N}

theorem subscribe_error {e : PubSubError} (h : request.tryGetTopics = .error e) :
    s.subscribe request = (.error e, { s with
      uniqueSubscriptionCounter := s.uniqueSubscriptionCounter + 1
      activeSubscribers := s.activeSubscribers + 1
      sinks := Function.update s.sinks s.uniqueSubscriptionCounter .new }) := by
  simp only [subscribe, h]

theorem subscribe_ok {topics : List T} (h : request.tryGetTopics = .ok topics) :
    s.subscribe request =
      (.ok ⟨s.uniqueSubscriptionCounter, request.subscriptionName, topics⟩, {
        listenersTopics := topics.foldl
          (fun listeners index =>
            listeners.insert (toLex (index, s.uniqueSubscriptionCounter))
              ⟨request.subscriptionName, s.uniqueSubscriptionCounter⟩)
          s.listenersTopics
        uniqueSubscriptionCounter := s.uniqueSubscriptionCounter + 1
        activeSubscribers := s.activeSubscribers + 1
        sinks := Function.update s.sinks s.uniqueSubscriptionCounter .new }) := by
  simp only [subscribe, h]

@[simp] theorem subscribe_sinks (s : Pubsub T N E) (request : SubscriptionRequest T N) :
    (s.subscribe request).2.sinks =
      Function.update s.sinks s.uniqueSubscriptionCounter .new := by
  unfold subscribe
  split <;> rfl

@[simp] theorem subscribe_counter (s : Pubsub T N E) (request : SubscriptionRequest T N) :
    (s.subscribe request).2.uniqueSubscriptionCounter = s.uniqueSubscriptionCounter + 1 := by
  unfold subscribe
  split <;> rfl

@[simp] theorem subscribe_activeSubscribers (s : Pubsub T N E)
    (request : SubscriptionRequest T N) :
    (s.subscribe request).2.activeSubscribers = s.activeSubscribers + 1 := by
  unfold subscribe
  split <;> rfl

/-- A subscription whose topics do not parse takes an id and registers nothing. -/
theorem Registered.subscribe_error (h : s.Registered held) {e : PubSubError}
    (hrequest : request.tryGetTopics = .error e) :
    (s.subscribe request).2.Registered held := by
  rw [Pubsub.subscribe_error hrequest]
  exact ⟨h.listeners, h.ids_nodup, fun _ hs => Nat.lt_succ_of_lt (h.ids_lt _ hs)⟩

theorem Registered.subscribe_ok (h : s.Registered held) {topics : List T}
    (hrequest : request.tryGetTopics = .ok topics) :
    (s.subscribe request).2.Registered
      (held ++ [⟨s.uniqueSubscriptionCounter, request.subscriptionName, topics⟩]) := by
  have hfresh : ∀ other ∈ held, other.id ≠ s.uniqueSubscriptionCounter :=
    fun other hother => (h.ids_lt other hother).ne
  rw [Pubsub.subscribe_ok hrequest]
  refine ⟨fun entry => ?_, ?_, ?_⟩
  · obtain ⟨key, sender⟩ := entry
    obtain ⟨⟨topic, id⟩, rfl⟩ := toLex.surjective key
    simp only [OrderedMap.mem_foldl_insert, h.listeners, List.mem_append, List.mem_singleton,
      toLex_inj, Prod.mk.injEq, ofLex_toLex, ActiveSubscription.sender, ne_eq]
    constructor
    · rintro (⟨⟨_, htopic, rfl, rfl⟩, rfl⟩ | ⟨-, other, hother, hrest⟩)
      · exact ⟨_, Or.inr rfl, htopic, rfl, rfl⟩
      · exact ⟨other, Or.inl hother, hrest⟩
    · rintro ⟨other, hother | rfl, htopic, rfl, rfl⟩
      · exact Or.inr ⟨fun _ _ heq => hfresh other hother heq.2.symm,
          other, hother, htopic, rfl, rfl⟩
      · exact Or.inl ⟨⟨topic, htopic, rfl, rfl⟩, rfl⟩
  · rw [List.map_append, List.nodup_append]
    refine ⟨h.ids_nodup, List.nodup_singleton _, ?_⟩
    simpa using hfresh
  · intro other hother
    rcases List.mem_append.mp hother with hother | hother
    · exact Nat.lt_succ_of_lt (h.ids_lt other hother)
    · rw [List.mem_singleton.mp hother]
      exact Nat.lt_succ_self _

theorem Registered.dropSubscription (h : s.Registered held) (hs : subscription ∈ held) :
    (s.dropSubscription subscription).Registered
      (held.filter fun other => other.id ≠ subscription.id) := by
  refine ⟨fun entry => ?_, h.ids_nodup.sublist (List.filter_sublist.map _), fun other hother =>
    h.ids_lt other (List.mem_of_mem_filter hother)⟩
  obtain ⟨key, sender⟩ := entry
  obtain ⟨⟨topic, id⟩, rfl⟩ := toLex.surjective key
  simp only [Pubsub.dropSubscription, OrderedMap.mem_foldl_remove, h.listeners, List.mem_filter,
    toLex_inj, Prod.mk.injEq, ofLex_toLex, ne_eq, decide_eq_true_eq]
  constructor
  · rintro ⟨hkept, other, hother, htopic, rfl, hsender⟩
    refine ⟨other, ⟨hother, fun hid => ?_⟩, htopic, rfl, hsender⟩
    rw [h.eq_of_id hother hs hid] at htopic
    exact hkept topic htopic ⟨rfl, hid.symm⟩
  · rintro ⟨other, ⟨hother, hid⟩, htopic, rfl, hsender⟩
    exact ⟨fun _ _ heq => hid heq.2.symm, other, hother, htopic, rfl, hsender⟩

section Serving

variable {τ : Type} [BEq E] {event : E} {sinks : Nat → Sink N E}
  {acc : List Nat × (Nat → Sink N E)} {id : Nat} {name : N}
  {entry : (τ ×ₗ Nat) × Subscriber N} {entries : List ((τ ×ₗ Nat) × Subscriber N)}

/-- A subscription has been sent the event once if its id is served, and otherwise not. -/
def ServedOnce (event : E) (sinks : Nat → Sink N E) (id : Nat) (name : N)
    (acc : List Nat × (Nat → Sink N E)) : Prop :=
  acc.2 id = if id ∈ acc.1 then (sinks id).send name event else sinks id

/-- An entry sends to its own subscription. -/
def SendsOwn (id : Nat) (name : N) (entry : (τ ×ₗ Nat) × Subscriber N) : Prop :=
  entry.2.sink = (ofLex entry.1).2 ∧ ((ofLex entry.1).2 = id → entry.2.subscription = name)

theorem mem_serve :
    id ∈ (serve event acc entry).1 ↔ id ∈ acc.1 ∨ (ofLex entry.1).2 = id := by
  dsimp only [serve]
  split
  · next hserved =>
      refine ⟨Or.inl, ?_⟩
      rintro (h | rfl)
      · exact h
      · exact hserved
  · rw [List.mem_cons, or_comm, eq_comm]

theorem ServedOnce.serve (h : ServedOnce event sinks id name acc)
    (hentry : SendsOwn id name entry) :
    ServedOnce event sinks id name (serve event acc entry) := by
  obtain ⟨hsink, hname⟩ := hentry
  dsimp only [Pubsub.serve]
  split
  · exact h
  · next hserved =>
      unfold ServedOnce at h ⊢
      dsimp only [Subscriber.send]
      rw [hsink]
      by_cases hid : (ofLex entry.1).2 = id
      · subst hid
        rw [if_neg hserved] at h
        rw [Function.update_self, if_pos List.mem_cons_self, h, hname rfl]
      · rw [Function.update_of_ne (Ne.symm hid), h]
        simp [Ne.symm hid]

theorem mem_foldl_serve :
    id ∈ (entries.foldl (serve event) acc).1 ↔
      id ∈ acc.1 ∨ ∃ entry ∈ entries, (ofLex entry.1).2 = id := by
  induction entries generalizing acc with
  | nil => simp
  | cons entry rest ih => simp [ih, mem_serve, or_assoc]

theorem ServedOnce.foldl_serve (h : ServedOnce event sinks id name acc)
    (hentries : ∀ entry ∈ entries, SendsOwn id name entry) :
    ServedOnce event sinks id name (entries.foldl (Pubsub.serve event) acc) := by
  induction entries generalizing acc with
  | nil => exact h
  | cons entry rest ih =>
      obtain ⟨hentry, hrest⟩ := List.forall_mem_cons.mp hentries
      exact ih (h.serve hentry) hrest

end Serving

section Publishing

variable [BEq E] {event : E} {sinks : Nat → Sink N E} {acc : List Nat × (Nat → Sink N E)}
  {id : Nat} {name : N}

theorem mem_serveTopic {topic : T} :
    id ∈ (s.serveTopic event acc topic).1 ↔
      id ∈ acc.1 ∨ ∃ sender, (toLex (topic, id), sender) ∈ s.listenersTopics.entries := by
  rw [serveTopic, mem_foldl_serve]
  refine or_congr_right ⟨?_, ?_⟩
  · rintro ⟨⟨key, sender⟩, hentry, rfl⟩
    obtain ⟨hmem, rfl⟩ := mem_takeWhile_rangeFrom.mp hentry
    exact ⟨sender, hmem⟩
  · rintro ⟨sender, hmem⟩
    exact ⟨_, mem_takeWhile_rangeFrom.mpr ⟨hmem, rfl⟩, rfl⟩

theorem ServedOnce.serveTopic (h : ServedOnce event sinks id name acc)
    (hentries : ∀ entry ∈ s.listenersTopics.entries, SendsOwn id name entry) (topic : T) :
    ServedOnce event sinks id name (s.serveTopic event acc topic) :=
  h.foldl_serve fun entry hentry => hentries entry (mem_takeWhile_rangeFrom.mp hentry).1

theorem foldl_serveTopic (h : ServedOnce event sinks id name acc)
    (hentries : ∀ entry ∈ s.listenersTopics.entries, SendsOwn id name entry) (topics : List T) :
    ServedOnce event sinks id name (topics.foldl (s.serveTopic event) acc) ∧
      (id ∈ (topics.foldl (s.serveTopic event) acc).1 ↔ id ∈ acc.1 ∨
        ∃ topic ∈ topics, ∃ sender, (toLex (topic, id), sender) ∈ s.listenersTopics.entries) := by
  induction topics generalizing acc with
  | nil => simpa using h
  | cons topic rest ih =>
      refine ⟨(ih (h.serveTopic hentries topic)).1, ?_⟩
      rw [List.foldl_cons, (ih (h.serveTopic hentries topic)).2, mem_serveTopic]
      simp [or_assoc]

variable [Event E T]

theorem Registered.publishInternal (h : s.Registered held) (event : E) :
    (s.publishInternal event).Registered held :=
  ⟨h.listeners, h.ids_nodup, h.ids_lt⟩

/-- A publication sends the event once to each subscription that has one of its topics. -/
theorem Registered.publishInternal_sinks (h : s.Registered held) (hs : subscription ∈ held)
    (event : E) :
    (s.publishInternal event).sinks subscription.id =
      if ∃ topic ∈ Event.getTopics event, topic ∈ subscription.subscribedTo then
        (s.sinks subscription.id).send subscription.name event
      else s.sinks subscription.id := by
  have hentries : ∀ entry ∈ s.listenersTopics.entries,
      SendsOwn subscription.id subscription.name entry := by
    intro entry hentry
    obtain ⟨other, hother, -, hid, hsender⟩ := (h.listeners entry).mp hentry
    refine ⟨by rw [hsender, hid]; rfl, fun heq => ?_⟩
    rw [hsender, h.eq_of_id hother hs (hid.symm.trans heq)]
    rfl
  have hstart : ServedOnce event s.sinks subscription.id subscription.name ([], s.sinks) := by
    simp [ServedOnce]
  obtain ⟨hserved, hmem⟩ := foldl_serveTopic hstart hentries (Event.getTopics event)
  refine hserved.trans (if_congr ?_ rfl rfl)
  rw [hmem]
  simp only [List.not_mem_nil, false_or, h.listeners, ofLex_toLex]
  refine exists_congr fun topic => and_congr_right fun _ => ⟨?_, ?_⟩
  · rintro ⟨sender, other, hother, htopic, hid, -⟩
    rwa [h.eq_of_id hs hother hid]
  · intro htopic
    exact ⟨_, subscription, hs, htopic, rfl, rfl⟩

/-- A publication sends nothing to an id that no subscription has. -/
theorem Registered.publishInternal_sinks_of_not_mem (h : s.Registered held)
    (hid : ∀ other ∈ held, other.id ≠ id) (event : E) (name : N) :
    (s.publishInternal event).sinks id = s.sinks id := by
  have hentries : ∀ entry ∈ s.listenersTopics.entries, SendsOwn id name entry := by
    intro entry hentry
    obtain ⟨other, hother, -, hother_id, hsender⟩ := (h.listeners entry).mp hentry
    refine ⟨by rw [hsender, hother_id]; rfl, fun heq => ?_⟩
    exact absurd (hother_id.symm.trans heq) (hid other hother)
  have hstart : ServedOnce event s.sinks id name ([], s.sinks) := by simp [ServedOnce]
  obtain ⟨hserved, hmem⟩ := foldl_serveTopic hstart hentries (Event.getTopics event)
  refine hserved.trans (if_neg ?_)
  rw [hmem]
  rintro (hnil | ⟨topic, -, sender, hentry⟩)
  · exact List.not_mem_nil hnil
  · obtain ⟨other, hother, -, hother_id, -⟩ := (h.listeners _).mp hentry
    exact hid other hother hother_id.symm

end Publishing

end Pubsub

/-- Events with a topic for each of two numbers. -/
structure Message where
  foo : Nat
  bar : Nat
deriving DecidableEq, Repr

def Message.fooTopic (n : Nat) : Bool ×ₗ Nat := toLex (false, n)

def Message.barTopic (n : Nat) : Bool ×ₗ Nat := toLex (true, n)

instance : Event Message (Bool ×ₗ Nat) where
  getTopics message := [Message.fooTopic message.foo, Message.barTopic message.bar]

end Cdk
