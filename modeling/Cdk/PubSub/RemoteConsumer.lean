import Mathlib.Data.Finset.Card
import Cdk.Lib.RefCounts
import Cdk.PubSub.Delivery

/-!
# Subscriptions to a remote hub

A consumer keeps one remote subscription for each topic that a local consumer
lists, and counts the listings. It tells the stream about each new and each
closed remote subscription through a bounded channel, if there is a stream.

A message that the channel does not take ends `subscribe` and `unsubscribe` at
once, with the counts as they are then. Counts drift upwards only, and a count
that has drifted does not come back.
-/

namespace Cdk

open Lib

/-- `INTERNAL_POLL_SIZE`. -/
def internalPollSize : Nat := 1000

/-- Messages to the transport. -/
inductive StreamCtrl (T N : Type) where
  | subscribe (name : N) (topic : T)
  | unsubscribe (name : N)
  | stop
deriving DecidableEq, Repr

/-- The channel to a stream, with the messages that the stream has not taken. -/
structure CtrlChannel (T N : Type) where
  buffer : List (StreamCtrl T N)
  closed : Bool
deriving DecidableEq, Repr

namespace CtrlChannel

variable {T N : Type}

def trySend (c : CtrlChannel T N) (message : StreamCtrl T N) :
    Except PubSubError (CtrlChannel T N) :=
  if c.closed then .error .channelClosed
  else if c.buffer.length < internalPollSize then
    .ok { c with buffer := c.buffer ++ [message] }
  else .error .channelFull

/-- How many more messages the channel takes. -/
def slots (c : CtrlChannel T N) : Nat :=
  if c.closed then 0 else internalPollSize - c.buffer.length

theorem trySend_cases (c : CtrlChannel T N) (message : StreamCtrl T N) :
    (∃ c', c.trySend message = .ok c' ∧ c'.slots + 1 = c.slots) ∨
    (∃ e, c.trySend message = .error e) ∧ c.slots = 0 := by
  unfold trySend slots
  cases hclosed : c.closed with
  | true => exact Or.inr ⟨⟨_, rfl⟩, rfl⟩
  | false =>
      by_cases hroom : c.buffer.length < internalPollSize
      · refine Or.inl ⟨_, if_pos hroom, ?_⟩
        simp only [Bool.false_eq_true, if_false, List.length_append, List.length_singleton]
        omega
      · refine Or.inr ⟨⟨.channelFull, if_neg hroom⟩, ?_⟩
        simp only [Bool.false_eq_true, if_false]
        omega

end CtrlChannel

structure UniqueSubscription (N : Type) where
  name : N
  totalSubscribers : Nat
deriving DecidableEq, Repr

/-- The consumer, with the publications that its relay has spawned. -/
structure Consumer (T N E : Type) [LinearOrder T] [LinearOrder N] where
  innerPubsub : Pubsub T N E
  remoteSubscriptions : OrderedMap T (UniqueSubscription N)
  subscriptions : OrderedMap N (List T)
  streamCtrl : Option (CtrlChannel T N)
  cachedEvents : OrderedMap T E
  spawned : List E

structure RemoteActiveConsumer (T N E : Type) where
  inner : ActiveSubscription T N
  previousMessages : List E

namespace Consumer

variable {T N E : Type} [LinearOrder T] [LinearOrder N]

def new : Consumer T N E := ⟨.new, .empty, .empty, none, .empty, []⟩

def messageToStream (s : Consumer T N E) (message : StreamCtrl T N) :
    Except PubSubError (Consumer T N E) :=
  match s.streamCtrl with
  | none => .ok s
  | some c => (c.trySend message).map fun c => { s with streamCtrl := some c }

/-- One topic of `Consumer::subscribe`, with the name that the transport gives to a new remote
subscription. -/
def subscribeTopic (newName : T → N) (s : Consumer T N E) (previous : List E) (topic : T) :
    Except PubSubError (List E) × Consumer T N E :=
  match s.remoteSubscriptions.get? topic with
  | some subscription =>
      (.ok (previous ++ (s.cachedEvents.get? topic).toList),
        { s with
          remoteSubscriptions := s.remoteSubscriptions.insert topic
            { subscription with totalSubscribers := subscription.totalSubscribers + 1 } })
  | none =>
      let inserted := { s with
        remoteSubscriptions := s.remoteSubscriptions.insert topic ⟨newName topic, 1⟩ }
      match inserted.messageToStream (.subscribe (newName topic) topic) with
      | .ok s => (.ok previous, s)
      | .error e => (.error e, inserted)

/-- The loop of `Consumer::subscribe`, which the first error ends. -/
def subscribeTopics (newName : T → N) :
    List T → Consumer T N E → List E → Except PubSubError (List E) × Consumer T N E
  | [], s, previous => (.ok previous, s)
  | topic :: rest, s, previous =>
      match subscribeTopic newName s previous topic with
      | (.ok previous, s) => subscribeTopics newName rest s previous
      | (.error e, s) => (.error e, s)

/-- `Consumer::subscribe`. -/
def subscribe (s : Consumer T N E) (request : SubscriptionRequest T N) (newName : T → N) :
    Except PubSubError (RemoteActiveConsumer T N E) × Consumer T N E :=
  match request.tryGetTopics with
  | .error e => (.error e, s)
  | .ok topics =>
      match s.subscriptions.get? request.subscriptionName with
      | some _ => (.error .noSubscription, s)
      | none =>
          match subscribeTopics newName topics s [] with
          | (.error e, s) => (.error e, s)
          | (.ok previous, s) =>
              match s.innerPubsub.subscribe request with
              | (result, innerPubsub) =>
                  (result.map fun inner => ⟨inner, previous⟩,
                    { s with
                      innerPubsub := innerPubsub
                      subscriptions := s.subscriptions.insert request.subscriptionName topics })

/-- One topic of `Consumer::unsubscribe`. -/
def unsubscribeTopic (s : Consumer T N E) (topic : T) :
    Except PubSubError Unit × Consumer T N E :=
  match s.remoteSubscriptions.get? topic with
  | none => (.ok (), s)
  | some subscription =>
      let total := subscription.totalSubscribers - 1
      if total = 0 then
        let removed := { s with
          remoteSubscriptions := s.remoteSubscriptions.remove topic
          cachedEvents := s.cachedEvents.remove topic }
        match removed.messageToStream (.unsubscribe subscription.name) with
        | .ok s => (.ok (), s)
        | .error e => (.error e, removed)
      else
        (.ok (), { s with
          remoteSubscriptions := s.remoteSubscriptions.insert topic
            { subscription with totalSubscribers := total } })

/-- The loop of `Consumer::unsubscribe`, which the first error ends. -/
def unsubscribeTopics (s : Consumer T N E) :
    List T → Except PubSubError Unit × Consumer T N E
  | [] => (.ok (), s)
  | topic :: rest =>
      match s.unsubscribeTopic topic with
      | (.ok (), s) => s.unsubscribeTopics rest
      | (.error e, s) => (.error e, s)

/-- `Consumer::unsubscribe`. -/
def unsubscribe (s : Consumer T N E) (subscriptionName : N) :
    Except PubSubError Unit × Consumer T N E :=
  match s.subscriptions.get? subscriptionName with
  | none => (.error .noSubscription, s)
  | some topics =>
      match unsubscribeTopics
        { s with subscriptions := s.subscriptions.remove subscriptionName } topics with
      | (.error e, s) => (.error e, s)
      | (.ok (), s) =>
          if s.remoteSubscriptions.entries.isEmpty then
            match s.messageToStream .stop with
            | .ok s => (.ok (), s)
            | .error e => (.error e, s)
          else (.ok (), s)

/-- `Drop` of a remote active consumer, and then of the subscription in it. -/
def dropConsumer (s : Consumer T N E) (consumer : RemoteActiveConsumer T N E) : Consumer T N E :=
  let unsubscribed := (s.unsubscribe consumer.inner.name).2
  { unsubscribed with
    innerPubsub := unsubscribed.innerPubsub.dropSubscription consumer.inner }

/-- `InternalRelay::send`, which spawns the publication. -/
def relay [Event E T] (s : Consumer T N E) (event : E) : Consumer T N E :=
  { s with
    cachedEvents := (Event.getTopics event).foldl
      (fun cached topic => cached.insert topic event) s.cachedEvents
    spawned := s.spawned ++ [event] }

/-- A spawned publication runs. -/
def runSpawned [BEq E] [Event E T] (s : Consumer T N E) (index : Nat) : Consumer T N E :=
  match s.spawned[index]? with
  | none => s
  | some event =>
      { s with
        innerPubsub := s.innerPubsub.publishInternal event
        spawned := s.spawned.eraseIdx index }

/-- The stream takes a number of further messages, or there is no stream. -/
def RoomFor (s : Consumer T N E) (n : Nat) : Prop := ∀ c ∈ s.streamCtrl, n ≤ c.slots

variable {s : Consumer T N E}

/-- A call puts a number of messages into the channel, or fails where there is no room for them. -/
def Sends {α : Type} (s : Consumer T N E) (n : Nat)
    (result : Except PubSubError α × Consumer T N E) : Prop :=
  (∃ a, result.1 = .ok a) ∧ (∀ k, result.2.RoomFor k ↔ s.RoomFor (k + n)) ∨
    (∃ e, result.1 = .error e) ∧ ¬s.RoomFor n

/-- A message takes a slot or fails for want of one. -/
theorem messageToStream_cases (s : Consumer T N E) (message : StreamCtrl T N) :
    (∃ ctrl, s.messageToStream message = .ok { s with streamCtrl := ctrl } ∧
      ∀ k, RoomFor { s with streamCtrl := ctrl } k ↔ s.RoomFor (k + 1)) ∨
    (∃ e, s.messageToStream message = .error e) ∧ ¬s.RoomFor 1 := by
  unfold messageToStream RoomFor
  cases hctrl : s.streamCtrl with
  | none => exact Or.inl ⟨none, by simp [← hctrl], by simp⟩
  | some c =>
      obtain ⟨c', hsend, hslots⟩ | ⟨⟨e, hsend⟩, hslots⟩ := c.trySend_cases message
      · refine Or.inl ⟨some c', by simp [hsend, Except.map], fun k => ?_⟩
        simp only [Option.mem_some_iff, forall_eq']
        omega
      · exact Or.inr ⟨⟨e, by simp [hsend, Except.map]⟩, by simp [hslots]⟩

/-- The remote subscriptions count the listings of a collection of topics. -/
def Counts (s : Consumer T N E) (listed : Multiset T) : Prop :=
  Lib.Counts UniqueSubscription.totalSubscribers s.remoteSubscriptions listed

/-- The parts that the two loops leave as they are. -/
structure SameLocal (s s' : Consumer T N E) : Prop where
  innerPubsub : s'.innerPubsub = s.innerPubsub
  subscriptions : s'.subscriptions = s.subscriptions

theorem SameLocal.trans {s s' s'' : Consumer T N E} (h : SameLocal s s') (h' : SameLocal s' s'') :
    SameLocal s s'' :=
  ⟨h'.innerPubsub.trans h.innerPubsub, h'.subscriptions.trans h.subscriptions⟩

variable {listed : Multiset T} {topic : T}

/-- A topic that is subscribed is counted, also when the stream does not take the message. -/
theorem subscribeTopic_spec (newName : T → N) (h : s.Counts listed) (previous : List E)
    (topic : T) :
    SameLocal s (subscribeTopic newName s previous topic).2 ∧
      (subscribeTopic newName s previous topic).2.Counts (topic ::ₘ listed) ∧
      s.Sends (if topic ∈ listed then 0 else 1) (subscribeTopic newName s previous topic) := by
  unfold subscribeTopic
  cases hget : s.remoteSubscriptions.get? topic with
  | some subscription =>
      obtain ⟨hmem, htotal⟩ := Lib.Counts.count_eq h hget
      rw [if_pos hmem]
      exact ⟨⟨rfl, rfl⟩, Lib.Counts.increment h (by rw [htotal]),
        Or.inl ⟨⟨_, rfl⟩, fun _ => Iff.rfl⟩⟩
  | none =>
      have hmem : topic ∉ listed := (Lib.Counts.get?_eq_none h).mp hget
      have hcounts : Lib.Counts UniqueSubscription.totalSubscribers
          (s.remoteSubscriptions.insert topic ⟨newName topic, 1⟩) (topic ::ₘ listed) :=
        Lib.Counts.increment h (by simp [Multiset.count_eq_zero.mpr hmem])
      rw [if_neg hmem]
      obtain ⟨ctrl, hmessage, hslots⟩ | ⟨⟨e, hmessage⟩, hfull⟩ := messageToStream_cases
        { s with remoteSubscriptions := s.remoteSubscriptions.insert topic ⟨newName topic, 1⟩ }
        (.subscribe (newName topic) topic)
      · simp only [hmessage]
        exact ⟨⟨rfl, rfl⟩, hcounts, Or.inl ⟨⟨_, rfl⟩, hslots⟩⟩
      · simp only [hmessage]
        exact ⟨⟨rfl, rfl⟩, hcounts, Or.inr ⟨⟨e, rfl⟩, hfull⟩⟩

/-- A topic that is unsubscribed is no longer counted, also when the stream does not take the
message. -/
theorem unsubscribeTopic_spec (h : s.Counts (topic ::ₘ listed)) :
    SameLocal s (s.unsubscribeTopic topic).2 ∧ (s.unsubscribeTopic topic).2.Counts listed ∧
      s.Sends (if topic ∈ listed then 0 else 1) (s.unsubscribeTopic topic) := by
  unfold unsubscribeTopic
  cases hget : s.remoteSubscriptions.get? topic with
  | none => exact absurd (Multiset.mem_cons_self topic listed) ((Lib.Counts.get?_eq_none h).mp hget)
  | some subscription =>
      obtain ⟨-, htotal⟩ := Lib.Counts.count_eq h hget
      have hless : subscription.totalSubscribers - 1 = listed.count topic := by
        rw [htotal, Multiset.count_cons_self, Nat.add_sub_cancel]
      by_cases hmem : topic ∈ listed
      · have hpos : subscription.totalSubscribers - 1 ≠ 0 := by
          rw [hless]
          exact (Multiset.count_pos.mpr hmem).ne'
        simp only [if_neg hpos, if_pos hmem]
        exact ⟨⟨rfl, rfl⟩, Lib.Counts.decrement h hmem hless, Or.inl ⟨⟨_, rfl⟩, fun _ => Iff.rfl⟩⟩
      · have hzero : subscription.totalSubscribers - 1 = 0 := by
          rw [hless, Multiset.count_eq_zero.mpr hmem]
        simp only [if_pos hzero, if_neg hmem]
        obtain ⟨ctrl, hmessage, hslots⟩ | ⟨⟨e, hmessage⟩, hfull⟩ := messageToStream_cases
          { s with
            remoteSubscriptions := s.remoteSubscriptions.remove topic
            cachedEvents := s.cachedEvents.remove topic }
          (.unsubscribe subscription.name)
        · simp only [hmessage]
          exact ⟨⟨rfl, rfl⟩, Lib.Counts.remove h hmem, Or.inl ⟨⟨_, rfl⟩, hslots⟩⟩
        · simp only [hmessage]
          exact ⟨⟨rfl, rfl⟩, Lib.Counts.remove h hmem, Or.inr ⟨⟨e, rfl⟩, hfull⟩⟩

/-- The keys outside of a multiset, counted one key at a time. -/
theorem card_insert_sdiff (listed : Multiset T) (topic : T) (topics : Finset T) :
    (insert topic topics \ listed.toFinset).card =
      (topics \ (topic ::ₘ listed).toFinset).card + if topic ∈ listed then 0 else 1 := by
  rw [Multiset.toFinset_cons]
  by_cases hmem : topic ∈ listed
  · have hmem' : topic ∈ listed.toFinset := Multiset.mem_toFinset.mpr hmem
    rw [if_pos hmem, Finset.insert_eq_of_mem hmem', Finset.insert_sdiff_of_mem _ hmem',
      Nat.add_zero]
  · have heq : insert topic topics \ listed.toFinset =
        insert topic (topics \ insert topic listed.toFinset) := by
      ext t
      by_cases ht : t = topic
      · simp [ht, hmem]
      · simp [ht]
    rw [heq, Finset.card_insert_of_notMem (by simp), if_neg hmem]

/-- `subscribe` counts all topics if the stream takes a message for each new one, and otherwise
counts some of them and fails. -/
theorem subscribeTopics_cases (newName : T → N) (topics : List T) (h : s.Counts listed)
    (previous : List E) :
    ∃ result s', subscribeTopics newName topics s previous = (result, s') ∧ SameLocal s s' ∧
      (s.RoomFor (topics.toFinset \ listed.toFinset).card ∧ (∃ all, result = .ok all) ∧
          s'.Counts (listed + topics) ∨
        ¬s.RoomFor (topics.toFinset \ listed.toFinset).card ∧ (∃ e, result = .error e) ∧
          ∃ listed', s'.Counts listed' ∧ listed < listed') := by
  induction topics generalizing s listed previous with
  | nil =>
      exact ⟨_, s, rfl, ⟨rfl, rfl⟩, Or.inl ⟨fun c _ => by simp, ⟨previous, rfl⟩, by simpa using h⟩⟩
  | cons topic rest ih =>
      have hlt : listed < topic ::ₘ listed := Multiset.lt_cons_self listed topic
      have hsum : topic ::ₘ listed + (rest : Multiset T) = listed + ↑(topic :: rest) := by
        rw [← Multiset.cons_coe, Multiset.add_cons, Multiset.cons_add]
      obtain ⟨hsame, hcounts, hsends⟩ := subscribeTopic_spec newName h previous topic
      rw [List.toFinset_cons, card_insert_sdiff, subscribeTopics]
      generalize subscribeTopic newName s previous topic = step at hsame hcounts hsends ⊢
      obtain ⟨result, next⟩ := step
      obtain ⟨⟨previous', rfl⟩, hroom⟩ | ⟨⟨e, rfl⟩, hfull⟩ := hsends
      · obtain ⟨result', s', heq, hsame', hcases⟩ := ih hcounts previous'
        rw [hroom, hsum] at hcases
        refine ⟨result', s', heq, hsame.trans hsame', ?_⟩
        obtain hok | ⟨hfull, herror, listed', hcounts', hlisted⟩ := hcases
        · exact Or.inl hok
        · exact Or.inr ⟨hfull, herror, listed', hcounts', hlt.trans hlisted⟩
      · exact ⟨_, _, rfl, hsame, Or.inr ⟨fun hall => hfull fun c hc =>
          (Nat.le_add_left _ _).trans (hall c hc), ⟨e, rfl⟩, _, hcounts, hlt⟩⟩

/-- The keys outside of a multiset, with one more key in front of a list of keys. -/
theorem card_cons_sdiff (listed : Multiset T) (topic : T) (rest : List T) :
    ((topic :: rest).toFinset \ listed.toFinset).card =
      (rest.toFinset \ listed.toFinset).card +
        if topic ∈ listed + (rest : Multiset T) then 0 else 1 := by
  rw [List.toFinset_cons]
  by_cases hlisted : topic ∈ listed
  · rw [Finset.insert_sdiff_of_mem _ (Multiset.mem_toFinset.mpr hlisted),
      if_pos (Multiset.mem_add.mpr (Or.inl hlisted)), Nat.add_zero]
  · rw [Finset.insert_sdiff_of_notMem _ (by simpa using hlisted)]
    by_cases hrest : topic ∈ rest
    · rw [Finset.insert_eq_of_mem (by simp [hrest, hlisted]),
        if_pos (Multiset.mem_add.mpr (Or.inr hrest)), Nat.add_zero]
    · rw [Finset.card_insert_of_notMem (by simp [hrest]), if_neg (by simp [hlisted, hrest])]

/-- `unsubscribe` uncounts all topics if the stream takes a message for each one that goes, and
otherwise leaves those counted that come behind the one it fails at. -/
theorem unsubscribeTopics_cases (topics : List T) (h : s.Counts (listed + topics)) :
    ∃ result s', s.unsubscribeTopics topics = (result, s') ∧ SameLocal s s' ∧
      (s.RoomFor (topics.toFinset \ listed.toFinset).card ∧ result = .ok () ∧ s'.Counts listed ∨
        ¬s.RoomFor (topics.toFinset \ listed.toFinset).card ∧ (∃ e, result = .error e) ∧
          ∃ left, s'.Counts (listed + left) ∧ left.card < topics.length) := by
  induction topics generalizing s with
  | nil =>
      exact ⟨_, s, rfl, ⟨rfl, rfl⟩, Or.inl ⟨fun c _ => by simp, rfl, by simpa using h⟩⟩
  | cons topic rest ih =>
      have hsum : listed + ((topic :: rest : List T) : Multiset T) =
          topic ::ₘ (listed + (rest : Multiset T)) := by
        rw [← Multiset.cons_coe, Multiset.add_cons]
      rw [hsum] at h
      obtain ⟨hsame, hcounts, hsends⟩ := unsubscribeTopic_spec h
      rw [card_cons_sdiff, unsubscribeTopics]
      generalize s.unsubscribeTopic topic = step at hsame hcounts hsends ⊢
      obtain ⟨result, next⟩ := step
      obtain ⟨⟨_, rfl⟩, hroom⟩ | ⟨⟨e, rfl⟩, hfull⟩ := hsends
      · obtain ⟨result', s', heq, hsame', hcases⟩ := ih hcounts
        rw [hroom] at hcases
        refine ⟨result', s', heq, hsame.trans hsame', ?_⟩
        obtain hok | ⟨hfull, herror, left, hcounts', hleft⟩ := hcases
        · exact Or.inl hok
        · exact Or.inr ⟨hfull, herror, left, hcounts', Nat.lt_succ_of_lt hleft⟩
      · refine ⟨_, _, rfl, hsame, Or.inr ⟨fun hall => hfull fun c hc =>
          (Nat.le_add_left _ _).trans (hall c hc), ⟨e, rfl⟩, rest, hcounts, ?_⟩⟩
        simp

/-- What `subscribe` does: it changes nothing, makes the subscription, or fails in the loop. -/
theorem subscribe_cases (h : s.Counts listed) (request : SubscriptionRequest T N)
    (newName : T → N) :
    ((∀ topics, request.tryGetTopics = .ok topics →
        s.subscriptions.get? request.subscriptionName ≠ none) ∧
      ∃ e, s.subscribe request newName = (.error e, s)) ∨
    ∃ topics, request.tryGetTopics = .ok topics ∧
      s.subscriptions.get? request.subscriptionName = none ∧
      (s.RoomFor (topics.toFinset \ listed.toFinset).card ∧
          (∃ previous s', s.subscribe request newName =
              (.ok ⟨⟨s.innerPubsub.uniqueSubscriptionCounter, request.subscriptionName, topics⟩,
                previous⟩, s') ∧
            s'.innerPubsub = (s.innerPubsub.subscribe request).2 ∧
            s'.subscriptions = s.subscriptions.insert request.subscriptionName topics ∧
            s'.Counts (listed + topics)) ∨
        ¬s.RoomFor (topics.toFinset \ listed.toFinset).card ∧
          ∃ e s' listed', s.subscribe request newName = (.error e, s') ∧ SameLocal s s' ∧
            s'.Counts listed' ∧ listed < listed') := by
  unfold subscribe
  cases hrequest : request.tryGetTopics with
  | error e => exact Or.inl ⟨by simp, e, rfl⟩
  | ok topics =>
      cases hname : s.subscriptions.get? request.subscriptionName with
      | some taken => exact Or.inl ⟨by simp, _, rfl⟩
      | none =>
          refine Or.inr ⟨topics, rfl, rfl, ?_⟩
          obtain ⟨result, s', heq, hsame, hcases⟩ := subscribeTopics_cases newName topics h []
          obtain ⟨hroom, ⟨previous, rfl⟩, hcounts⟩ | ⟨hfull, ⟨e, rfl⟩, listed', hcounts, hlt⟩ := hcases
          · refine Or.inl ⟨hroom, previous, { s' with
              innerPubsub := (s'.innerPubsub.subscribe request).2
              subscriptions := s'.subscriptions.insert request.subscriptionName topics }, ?_, ?_, ?_,
              hcounts⟩
            · simp only [heq, Pubsub.subscribe_ok hrequest, Except.map, hsame.innerPubsub]
            · rw [hsame.innerPubsub]
            · rw [hsame.subscriptions]
          · exact Or.inr ⟨hfull, e, s', listed', by simp only [heq], hsame, hcounts, hlt⟩

theorem unsubscribeTopics_append (s : Consumer T N E) (first second : List T) :
    s.unsubscribeTopics (first ++ second) =
      match s.unsubscribeTopics first with
      | (.ok (), s) => s.unsubscribeTopics second
      | (.error e, s) => (.error e, s) := by
  induction first generalizing s with
  | nil => rfl
  | cons topic rest ih =>
      rw [List.cons_append, unsubscribeTopics, unsubscribeTopics]
      generalize s.unsubscribeTopic topic = step
      obtain ⟨_ | _, next⟩ := step
      · rfl
      · exact ih next

/-- The topics of a list, its last one aside, that are not in a collection. -/
def closing (topics : List T) (listed : Multiset T) : Finset T :=
  topics.toFinset.filter fun topic => some topic ≠ topics.getLast? ∧ topic ∉ listed

/-- A failure at the last topic leaves nothing counted. -/
theorem unsubscribeTopics_counts (topics : List T) (h : s.Counts (listed + topics)) :
    SameLocal s (s.unsubscribeTopics topics).2 ∧
      (s.RoomFor (closing topics listed).card ∧ (s.unsubscribeTopics topics).2.Counts listed ∨
        ¬s.RoomFor (closing topics listed).card ∧
          ∃ left, (s.unsubscribeTopics topics).2.Counts (listed + left) ∧ left ≠ 0) := by
  obtain rfl | ⟨init, last, rfl⟩ := topics.eq_nil_or_concat'
  · exact ⟨⟨rfl, rfl⟩, Or.inl ⟨fun c _ => by simp [closing],
      by simpa [unsubscribeTopics] using h⟩⟩
  · have hsum : listed + ((init ++ [last] : List T) : Multiset T) =
        last ::ₘ listed + (init : Multiset T) := by
      rw [← Multiset.coe_add, Multiset.coe_singleton, ← Multiset.add_assoc, Multiset.add_comm _ {last},
        Multiset.singleton_add, Multiset.cons_add]
    have hclosing : closing (init ++ [last]) listed =
        init.toFinset \ (last ::ₘ listed).toFinset := by
      ext topic
      simp only [closing, Finset.mem_filter, List.mem_toFinset, List.mem_append,
        List.mem_singleton, List.getLast?_concat, ne_eq, Option.some.injEq, Finset.mem_sdiff,
        Multiset.mem_toFinset, Multiset.mem_cons]
      tauto
    rw [hsum] at h
    rw [hclosing, unsubscribeTopics_append]
    obtain ⟨result, s', heq, hsame, hcases⟩ := unsubscribeTopics_cases init h
    rw [heq]
    obtain ⟨hroom, rfl, hcounts⟩ | ⟨hfull, ⟨e, rfl⟩, left, hcounts, -⟩ := hcases
    · obtain ⟨hsame', hcounts', -⟩ := unsubscribeTopic_spec hcounts
      have hlast : (s'.unsubscribeTopics [last]).2 = (s'.unsubscribeTopic last).2 := by
        rw [unsubscribeTopics]
        generalize s'.unsubscribeTopic last = step
        obtain ⟨_ | _, next⟩ := step <;> rfl
      simp only [hlast]
      exact ⟨hsame.trans hsame', Or.inl ⟨hroom, hcounts'⟩⟩
    · refine ⟨hsame, Or.inr ⟨hfull, last ::ₘ left, ?_, Multiset.cons_ne_zero⟩⟩
      rwa [Multiset.add_cons, ← Multiset.cons_add]

/-- What is left after `unsubscribe`, whether it succeeds or not. -/
theorem unsubscribe_counts {name : N} {topics : List T}
    (hname : s.subscriptions.get? name = some topics) (h : s.Counts (listed + topics)) :
    (s.unsubscribe name).2.innerPubsub = s.innerPubsub ∧
      (s.unsubscribe name).2.subscriptions = s.subscriptions.remove name ∧
      (s.RoomFor (closing topics listed).card ∧ (s.unsubscribe name).2.Counts listed ∨
        ¬s.RoomFor (closing topics listed).card ∧
          ∃ left, (s.unsubscribe name).2.Counts (listed + left) ∧ left ≠ 0) := by
  obtain ⟨hsame, hcases⟩ := unsubscribeTopics_counts (s := { s with
    subscriptions := s.subscriptions.remove name }) topics h
  have hloop : ∃ ctrl, (s.unsubscribe name).2 = { (unsubscribeTopics { s with
      subscriptions := s.subscriptions.remove name } topics).2 with streamCtrl := ctrl } := by
    simp only [unsubscribe, hname]
    generalize
      unsubscribeTopics { s with subscriptions := s.subscriptions.remove name } topics = loop
    obtain ⟨e | _, next⟩ := loop
    · exact ⟨_, rfl⟩
    · dsimp only
      split
      · obtain ⟨ctrl, hmessage, -⟩ | ⟨⟨e, hmessage⟩, -⟩ := next.messageToStream_cases .stop
        · exact ⟨ctrl, by rw [hmessage]⟩
        · exact ⟨_, by rw [hmessage]⟩
      · exact ⟨_, rfl⟩
  obtain ⟨ctrl, hloop⟩ := hloop
  rw [hloop]
  exact ⟨hsame.innerPubsub, hsame.subscriptions, hcases⟩

end Consumer

end Cdk
