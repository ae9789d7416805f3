import Mathlib.Algebra.Order.Group.Multiset
import Cdk.Lib.Runs
import Cdk.PubSub.RemoteConsumer

/-!
# The registry of a remote consumer

A run subscribes, drops, connects, closes and disconnects streams and relays
events in any order. The names of the live consumers and the tree of the inner
hub stay exact whatever fails. The counted topics are the listed ones and a
drift, which grows when the stream has no room for the messages of a call and
which no later call takes back.
-/

namespace Cdk

open Lib

/-- A consumer and the subscriptions that its callers hold. -/
structure RemoteSubscriptions (T N E : Type) [LinearOrder T] [LinearOrder N] where
  consumer : Consumer T N E
  live : List (RemoteActiveConsumer T N E)

inductive ConsumerAction (T N E : Type) where
  | subscribe (request : SubscriptionRequest T N) (newName : T → N)
  | drop (id : Nat)
  | connect
  /-- The stream takes a message. -/
  | takeMessage
  /-- The stream ends and drops its receiver. -/
  | closeStream
  | disconnect
  | relay (event : E)
  | runSpawned (index : Nat)

namespace RemoteSubscriptions

variable {T N E : Type} [LinearOrder T] [LinearOrder N]

def new : RemoteSubscriptions T N E := ⟨.new, []⟩

/-- All listings of topics by live consumers. -/
def listed (s : RemoteSubscriptions T N E) : Multiset T :=
  (s.live.flatMap fun c => c.inner.subscribedTo : List T)

/-- The listings by the live consumers other than one. -/
def listedByOthers (s : RemoteSubscriptions T N E) (id : Nat) : Multiset T :=
  ((s.live.filter fun c => c.inner.id ≠ id).flatMap fun c => c.inner.subscribedTo : List T)

def step [BEq E] [Event E T] (s : RemoteSubscriptions T N E) :
    ConsumerAction T N E → RemoteSubscriptions T N E
  | .subscribe request newName =>
      match s.consumer.subscribe request newName with
      | (.ok subscription, consumer) => ⟨consumer, s.live ++ [subscription]⟩
      | (.error _, consumer) => { s with consumer := consumer }
  | .drop id =>
      match s.live.find? (·.inner.id = id) with
      | none => s
      | some subscription =>
          ⟨s.consumer.dropConsumer subscription, s.live.filter fun c => c.inner.id ≠ id⟩
  | .connect => { s with consumer := { s.consumer with streamCtrl := some ⟨[], false⟩ } }
  | .takeMessage =>
      { s with consumer := { s.consumer with
          streamCtrl := s.consumer.streamCtrl.map fun c => { c with buffer := c.buffer.tail } } }
  | .closeStream =>
      { s with consumer := { s.consumer with
          streamCtrl := s.consumer.streamCtrl.map fun c => { c with closed := true } } }
  | .disconnect => { s with consumer := { s.consumer with streamCtrl := none } }
  | .relay event => { s with consumer := s.consumer.relay event }
  | .runSpawned index => { s with consumer := s.consumer.runSpawned index }

/-- Every structure of the consumer agrees with the live subscriptions. -/
structure Accurate (s : RemoteSubscriptions T N E) : Prop where
  remote : ∀ topic,
    (∃ subscription, s.consumer.remoteSubscriptions.get? topic = some subscription) ↔
      ∃ c ∈ s.live, topic ∈ c.inner.subscribedTo
  total : ∀ topic subscription, s.consumer.remoteSubscriptions.get? topic = some subscription →
    subscription.totalSubscribers = s.listed.count topic
  names : ∀ name, (∃ topics, s.consumer.subscriptions.get? name = some topics) ↔
    ∃ c ∈ s.live, c.inner.name = name
  listeners : ∀ topic id, (∃ sender, (toLex (topic, id), sender) ∈
      s.consumer.innerPubsub.listenersTopics.entries) ↔
    ∃ c ∈ s.live, c.inner.id = id ∧ topic ∈ c.inner.subscribedTo
  active : s.consumer.innerPubsub.activeSubscribers = s.live.length

/-- The stream has room for the messages of a call: one for each topic of a new subscription that
no live consumer lists, and one for each topic of a dropped one, its last topic aside, that no other
live consumer lists. -/
def HasRoom (s : RemoteSubscriptions T N E) : ConsumerAction T N E → Prop
  | .subscribe request _ => ∀ topics, request.tryGetTopics = .ok topics →
      (∀ c ∈ s.live, c.inner.name ≠ request.subscriptionName) →
      s.consumer.RoomFor (topics.toFinset \ s.listed.toFinset).card
  | .drop id => ∀ c ∈ s.live, c.inner.id = id →
      s.consumer.RoomFor (Consumer.closing c.inner.subscribedTo (s.listedByOthers id)).card
  | _ => True

/-- What holds in every run. -/
structure Inv (s : RemoteSubscriptions T N E) : Prop where
  names : ∀ name topics, s.consumer.subscriptions.get? name = some topics ↔
    ∃ c ∈ s.live, c.inner.name = name ∧ c.inner.subscribedTo = topics
  names_nodup : (s.live.map fun c => c.inner.name).Nodup
  registered : s.consumer.innerPubsub.Registered (s.live.map RemoteActiveConsumer.inner)
  active : s.consumer.innerPubsub.activeSubscribers = s.live.length
  drift : ∃ extra, s.consumer.Counts (s.listed + extra)

/-- The remote subscriptions count exactly the listings. -/
def Exact (s : RemoteSubscriptions T N E) : Prop := s.consumer.Counts s.listed

variable {s : RemoteSubscriptions T N E}

theorem exact_iff {extra : Multiset T} (h : s.consumer.Counts (s.listed + extra)) :
    s.Exact ↔ extra = 0 := by
  constructor
  · intro hexact
    simpa using Lib.Counts.unique h hexact
  · rintro rfl
    simpa [Exact] using h

theorem inv_new : (new : RemoteSubscriptions T N E).Inv where
  names := by simp [new, Consumer.new, OrderedMap.get?]
  names_nodup := List.nodup_nil
  registered := Pubsub.registered_new
  active := rfl
  drift := ⟨0, Lib.Counts.empty⟩

theorem exact_new : (new : RemoteSubscriptions T N E).Exact := Lib.Counts.empty

theorem mem_listed {topic : T} :
    topic ∈ s.listed ↔ ∃ c ∈ s.live, topic ∈ c.inner.subscribedTo := by
  simp [listed]

/-- With the invariant, only the counts can be wrong. -/
theorem Inv.accurate_iff (h : s.Inv) : s.Accurate ↔ s.Exact := by
  constructor
  · intro haccurate topic
    cases hget : s.consumer.remoteSubscriptions.get? topic with
    | none =>
        have hmem : topic ∉ s.listed := fun hmem => by
          obtain ⟨subscription, hsome⟩ := (haccurate.remote topic).mpr (mem_listed.mp hmem)
          simp [hsome] at hget
        rw [if_neg hmem, Option.map_none]
    | some subscription =>
        have hmem : topic ∈ s.listed := mem_listed.mpr ((haccurate.remote topic).mp ⟨_, hget⟩)
        rw [if_pos hmem, Option.map_some, haccurate.total topic subscription hget]
  · intro hexact
    refine ⟨fun topic => ?_, fun topic subscription hget => (Lib.Counts.count_eq hexact hget).2,
      fun name => ?_, fun topic id => ?_, h.active⟩
    · rw [← mem_listed, ← Option.ne_none_iff_exists', ne_eq, Lib.Counts.get?_eq_none hexact, not_not]
    · simp only [h.names]
      constructor
      · rintro ⟨_, c, hc, hname, -⟩
        exact ⟨c, hc, hname⟩
      · rintro ⟨c, hc, hname⟩
        exact ⟨_, c, hc, hname, rfl⟩
    · simp only [h.registered.listeners, ofLex_toLex, List.mem_map]
      constructor
      · rintro ⟨_, _, ⟨c, hc, rfl⟩, htopic, rfl, -⟩
        exact ⟨c, hc, rfl, htopic⟩
      · rintro ⟨c, hc, rfl, htopic⟩
        exact ⟨_, c.inner, ⟨c, hc, rfl⟩, htopic, rfl, rfl⟩

/-- The invariant, with the counts exact in the next state if they are exact now and the step has
room. -/
def StepsTo (s : RemoteSubscriptions T N E) (room : Prop) (s' : RemoteSubscriptions T N E) : Prop :=
  s'.Inv ∧ (s'.Exact ↔ s.Exact ∧ room)

theorem stepsTo_of_counts {room : Prop} {s' : RemoteSubscriptions T N E} {extra extra' : Multiset T}
    (hcounts : s.consumer.Counts (s.listed + extra)) (h : s'.Inv)
    (hcounts' : s'.consumer.Counts (s'.listed + extra')) (hiff : extra' = 0 ↔ extra = 0 ∧ room) :
    s.StepsTo room s' :=
  ⟨h, by rw [exact_iff hcounts', exact_iff hcounts, hiff]⟩

theorem Inv.name_free (h : s.Inv) {name : N} :
    s.consumer.subscriptions.get? name = none ↔ ∀ c ∈ s.live, c.inner.name ≠ name := by
  rw [Option.eq_none_iff_forall_ne_some]
  constructor
  · intro hnone c hc hname
    exact hnone _ ((h.names name _).mpr ⟨c, hc, hname, rfl⟩)
  · intro hfree topics hsome
    obtain ⟨c, hc, hname, -⟩ := (h.names name topics).mp hsome
    exact hfree c hc hname

section Subscribe

variable {request : SubscriptionRequest T N} {topics : List T} {previous : List E}
  {consumer : Consumer T N E}

theorem listed_append {live : List (RemoteActiveConsumer T N E)} {c : RemoteActiveConsumer T N E} :
    listed ⟨consumer, live ++ [c]⟩ = listed ⟨consumer, live⟩ + c.inner.subscribedTo := by
  simp [listed]

/-- A new subscription keeps the names and the inner hub in agreement. -/
theorem Inv.subscribed (h : s.Inv) (hrequest : request.tryGetTopics = .ok topics)
    (hname : s.consumer.subscriptions.get? request.subscriptionName = none)
    (hinner : consumer.innerPubsub = (s.consumer.innerPubsub.subscribe request).2)
    (hnames : consumer.subscriptions =
      s.consumer.subscriptions.insert request.subscriptionName topics)
    {extra : Multiset T} (hcounts : consumer.Counts (s.listed + extra + topics)) :
    Inv ⟨consumer, s.live ++ [⟨⟨s.consumer.innerPubsub.uniqueSubscriptionCounter,
      request.subscriptionName, topics⟩, previous⟩]⟩ := by
  have hfree := h.name_free.mp hname
  refine ⟨fun name topics' => ?_, ?_, ?_, ?_, ⟨extra, ?_⟩⟩
  · rw [hnames]
    by_cases heq : name = request.subscriptionName
    · subst heq
      simp only [OrderedMap.get?_insert_self, Option.some.injEq, List.mem_append,
        List.mem_singleton]
      constructor
      · rintro rfl
        exact ⟨_, Or.inr rfl, rfl, rfl⟩
      · rintro ⟨c, hc | rfl, hcname, rfl⟩
        · exact absurd hcname (hfree c hc)
        · rfl
    · rw [OrderedMap.get?_insert_of_ne heq, h.names]
      simp only [List.mem_append, List.mem_singleton]
      constructor
      · rintro ⟨c, hc, hrest⟩
        exact ⟨c, Or.inl hc, hrest⟩
      · rintro ⟨c, hc | rfl, hcname, hrest⟩
        · exact ⟨c, hc, hcname, hrest⟩
        · exact absurd hcname.symm heq
  · rw [List.map_append, List.nodup_append]
    refine ⟨h.names_nodup, List.nodup_singleton _, ?_⟩
    simpa using hfree
  · rw [List.map_append]
    change consumer.innerPubsub.Registered _
    rw [hinner]
    exact h.registered.subscribe_ok hrequest
  · change consumer.innerPubsub.activeSubscribers = _
    rw [hinner, Pubsub.subscribe_activeSubscribers, h.active, List.length_append,
      List.length_singleton]
  · rw [listed_append, add_right_comm]
    exact hcounts

end Subscribe

section Drop

theorem Inv.ids_nodup (h : s.Inv) : (s.live.map fun c => c.inner.id).Nodup := by
  have hmap := h.registered.ids_nodup
  rw [List.map_map] at hmap
  exact hmap

/-- The live consumers are a dropped one and the others. -/
theorem Inv.live_perm (h : s.Inv) {c : RemoteActiveConsumer T N E} (hc : c ∈ s.live) :
    s.live.Perm (c :: s.live.filter fun other => other.inner.id ≠ c.inner.id) := by
  rw [List.perm_ext_iff_of_nodup h.ids_nodup.of_map]
  · intro other
    rw [List.mem_cons, List.mem_filter, decide_eq_true_eq]
    constructor
    · intro hother
      by_cases hid : other.inner.id = c.inner.id
      · exact Or.inl (List.inj_on_of_nodup_map h.ids_nodup hother hc hid)
      · exact Or.inr ⟨hother, hid⟩
    · rintro (rfl | ⟨hother, -⟩)
      · exact hc
      · exact hother
  · exact List.nodup_cons.mpr ⟨by simp, h.ids_nodup.of_map.filter _⟩

theorem Inv.listed_eq (h : s.Inv) {c : RemoteActiveConsumer T N E} (hc : c ∈ s.live) :
    s.listed = s.listedByOthers c.inner.id + c.inner.subscribedTo := by
  have hperm := (h.live_perm hc).flatMap_right fun other => other.inner.subscribedTo
  rw [listed, Multiset.coe_eq_coe.mpr hperm, List.flatMap_cons, ← Multiset.coe_add, add_comm]
  rfl

/-- A drop keeps the names and the inner hub in agreement. -/
theorem Inv.dropped (h : s.Inv) {c : RemoteActiveConsumer T N E} (hc : c ∈ s.live)
    {consumer : Consumer T N E}
    (hinner : consumer.innerPubsub = s.consumer.innerPubsub.dropSubscription c.inner)
    (hnames : consumer.subscriptions = s.consumer.subscriptions.remove c.inner.name)
    {extra : Multiset T} (hcounts : consumer.Counts (s.listedByOthers c.inner.id + extra)) :
    Inv ⟨consumer, s.live.filter fun other => other.inner.id ≠ c.inner.id⟩ := by
  have hperm := h.live_perm hc
  have hname : ∀ other ∈ s.live,
      other.inner.name = c.inner.name ↔ other.inner.id = c.inner.id := by
    intro other hother
    constructor
    · intro heq
      rw [List.inj_on_of_nodup_map h.names_nodup hother hc heq]
    · intro heq
      rw [List.inj_on_of_nodup_map h.ids_nodup hother hc heq]
  refine ⟨fun name topics => ?_, h.names_nodup.sublist (List.filter_sublist.map _), ?_, ?_,
    ⟨extra, hcounts⟩⟩
  · rw [hnames]
    by_cases heq : name = c.inner.name
    · subst heq
      rw [OrderedMap.get?_remove_self]
      simp only [reduceCtorEq, false_iff, not_exists, List.mem_filter, decide_eq_true_eq]
      rintro other ⟨⟨hother, hid⟩, hsame, -⟩
      exact hid ((hname other hother).mp hsame)
    · rw [OrderedMap.get?_remove_of_ne heq, h.names]
      simp only [List.mem_filter, decide_eq_true_eq]
      constructor
      · rintro ⟨other, hother, rfl, htopics⟩
        exact ⟨other, ⟨hother, fun hid => heq ((hname other hother).mpr hid)⟩, rfl, htopics⟩
      · rintro ⟨other, ⟨hother, -⟩, hrest⟩
        exact ⟨other, hother, hrest⟩
  · have hdropped := h.registered.dropSubscription (List.mem_map_of_mem hc)
    rw [List.filter_map] at hdropped
    change consumer.innerPubsub.Registered _
    rw [hinner]
    exact hdropped
  · have hlength := hperm.length_eq
    change consumer.innerPubsub.activeSubscribers = _
    rw [hinner, Pubsub.dropSubscription, h.active, hlength, List.length_cons, Nat.add_sub_cancel]

end Drop

/-- Other steps change neither the counts nor the local structures. -/
theorem stepsTo_of_same (h : s.Inv) {consumer : Consumer T N E}
    (hlisteners : consumer.innerPubsub.Registered (s.live.map RemoteActiveConsumer.inner))
    (hactive : consumer.innerPubsub.activeSubscribers = s.consumer.innerPubsub.activeSubscribers)
    (hremote : consumer.remoteSubscriptions = s.consumer.remoteSubscriptions)
    (hnames : consumer.subscriptions = s.consumer.subscriptions) :
    s.StepsTo True { s with consumer := consumer } := by
  obtain ⟨extra, hcounts⟩ := h.drift
  have hcounts' : consumer.Counts (s.listed + extra) := by
    rw [Consumer.Counts, hremote]
    exact hcounts
  refine stepsTo_of_counts hcounts ⟨?_, h.names_nodup, hlisteners, hactive.trans h.active, extra,
    hcounts'⟩ hcounts' (and_iff_left trivial).symm
  intro name topics
  rw [hnames]
  exact h.names name topics

section Steps

variable [BEq E] [Event E T]

theorem stepsTo_subscribe (h : s.Inv) (request : SubscriptionRequest T N) (newName : T → N) :
    s.StepsTo (s.HasRoom (.subscribe request newName : ConsumerAction T N E))
      (s.step (.subscribe request newName)) := by
  obtain ⟨extra, hcounts⟩ := h.drift
  obtain ⟨hskip, e, heq⟩ | ⟨topics, hrequest, hname, hcases⟩ :=
    Consumer.subscribe_cases hcounts request newName
  · have hroom : s.HasRoom (.subscribe request newName : ConsumerAction T N E) :=
      fun topics hrequest hfree => absurd (h.name_free.mpr hfree) (hskip topics hrequest)
    simp only [step, heq]
    exact ⟨h, (and_iff_left hroom).symm⟩
  · have hroom_iff : extra = 0 → (s.HasRoom (.subscribe request newName : ConsumerAction T N E) ↔
        s.consumer.RoomFor (topics.toFinset \ (s.listed + extra).toFinset).card) := by
      rintro rfl
      rw [add_zero]
      constructor
      · intro hroom
        exact hroom topics hrequest (h.name_free.mp hname)
      · intro hroom topics' hrequest' _
        cases hrequest.symm.trans hrequest'
        exact hroom
    obtain ⟨hroom, previous, consumer, heq, hinner, hnames, hcounts'⟩ | ⟨hfull, e, consumer, listed',
      heq, hsame, hcounts', hlt⟩ := hcases
    · simp only [step, heq]
      refine stepsTo_of_counts hcounts (h.subscribed hrequest hname hinner hnames hcounts') ?_
        ⟨fun hextra => ⟨hextra, (hroom_iff hextra).mpr hroom⟩, And.left⟩
      rw [listed_append, add_right_comm]
      exact hcounts'
    · obtain ⟨more, rfl⟩ := Multiset.le_iff_exists_add.mp hlt.le
      rw [add_assoc] at hcounts'
      simp only [step, heq]
      refine stepsTo_of_counts hcounts ?_ hcounts' ?_
      · exact ⟨fun name topics => by rw [hsame.subscriptions, h.names], h.names_nodup,
          by rw [hsame.innerPubsub]; exact h.registered,
          by rw [hsame.innerPubsub]; exact h.active, extra + more, hcounts'⟩
      · constructor
        · intro hzero
          have hmore : more = 0 :=
            Multiset.le_zero.mp (hzero ▸ Multiset.le_add_left more extra)
          rw [hmore, add_zero] at hlt
          exact absurd hlt (lt_irrefl _)
        · rintro ⟨hextra, hroom⟩
          exact absurd ((hroom_iff hextra).mp hroom) hfull

theorem stepsTo_drop (h : s.Inv) (id : Nat) :
    s.StepsTo (s.HasRoom (.drop id : ConsumerAction T N E)) (s.step (.drop id)) := by
  obtain ⟨extra, hcounts⟩ := h.drift
  cases hfind : s.live.find? (·.inner.id = id) with
  | none =>
      have hroom : s.HasRoom (.drop id : ConsumerAction T N E) := fun c hc hid =>
        absurd hid (by simpa using List.find?_eq_none.mp hfind c hc)
      simp only [step, hfind]
      exact ⟨h, (and_iff_left hroom).symm⟩
  | some c =>
      have hc : c ∈ s.live := List.mem_of_find?_eq_some hfind
      obtain rfl : c.inner.id = id := by simpa using List.find?_some hfind
      have hroom_iff : s.HasRoom (.drop c.inner.id : ConsumerAction T N E) ↔ s.consumer.RoomFor
          (Consumer.closing c.inner.subscribedTo (s.listedByOthers c.inner.id)).card := by
        constructor
        · intro hroom
          exact hroom c hc rfl
        · intro hroom other hother hid
          rwa [List.inj_on_of_nodup_map h.ids_nodup hother hc hid]
      have hname : s.consumer.subscriptions.get? c.inner.name = some c.inner.subscribedTo :=
        (h.names _ _).mpr ⟨c, hc, rfl, rfl⟩
      have htotal : s.consumer.Counts
          (s.listedByOthers c.inner.id + extra + c.inner.subscribedTo) := by
        rw [add_right_comm, ← h.listed_eq hc]
        exact hcounts
      have hclosing : extra = 0 → s.listedByOthers c.inner.id + extra =
          s.listedByOthers c.inner.id := by
        rintro rfl
        exact add_zero _
      obtain ⟨hinner, hnames, hcases⟩ := Consumer.unsubscribe_counts hname htotal
      have hinner' : (s.consumer.dropConsumer c).innerPubsub =
          s.consumer.innerPubsub.dropSubscription c.inner := by
        rw [Consumer.dropConsumer, hinner]
      simp only [step, hfind]
      obtain ⟨hroom, hcounts'⟩ | ⟨hfull, left, hcounts', hleft⟩ := hcases
      · refine stepsTo_of_counts hcounts (h.dropped hc hinner' hnames hcounts') hcounts'
          ⟨fun hextra => ⟨hextra, hroom_iff.mpr ?_⟩, And.left⟩
        rwa [hclosing hextra] at hroom
      · rw [add_assoc] at hcounts'
        refine stepsTo_of_counts hcounts (h.dropped hc hinner' hnames hcounts') hcounts' ⟨?_, ?_⟩
        · intro hzero
          exact absurd (Multiset.le_zero.mp (hzero ▸ Multiset.le_add_left left extra)) hleft
        · rintro ⟨hextra, hroom⟩
          rw [hclosing hextra] at hfull
          exact absurd (hroom_iff.mp hroom) hfull

/-- Every step keeps the invariant, and keeps exact counts exactly if it has room. -/
theorem stepsTo_step (h : s.Inv) (a : ConsumerAction T N E) :
    s.StepsTo (s.HasRoom a) (s.step a) := by
  cases a with
  | subscribe request newName => exact stepsTo_subscribe h request newName
  | drop id => exact stepsTo_drop h id
  | connect => exact stepsTo_of_same h h.registered rfl rfl rfl
  | takeMessage => exact stepsTo_of_same h h.registered rfl rfl rfl
  | closeStream => exact stepsTo_of_same h h.registered rfl rfl rfl
  | disconnect => exact stepsTo_of_same h h.registered rfl rfl rfl
  | relay event => exact stepsTo_of_same h h.registered rfl rfl rfl
  | runSpawned index =>
      cases hget : s.consumer.spawned[index]? with
      | none =>
          simp only [step, Consumer.runSpawned, hget]
          exact stepsTo_of_same h h.registered rfl rfl rfl
      | some event =>
          simp only [step, Consumer.runSpawned, hget]
          exact stepsTo_of_same h (h.registered.publishInternal event) rfl rfl rfl

/-- In every run, the structures agree at the end exactly if the stream has had room for the
messages of every call. -/
theorem registry_accurate_iff (actions : List (ConsumerAction T N E)) :
    (run step new actions).Accurate ↔
      Along step HasRoom (new : RemoteSubscriptions T N E) actions := by
  have hinv : (run step (new : RemoteSubscriptions T N E) actions).Inv :=
    @invariant_run _ _ step Inv (fun _ a h => (stepsTo_step h a).1) new inv_new actions
  have hexact : (run step (new : RemoteSubscriptions T N E) actions).Exact ↔
      new.Exact ∧ Along step HasRoom (new : RemoteSubscriptions T N E) actions :=
    @run_iff_along _ _ step HasRoom Inv Exact (fun _ a h => (stepsTo_step h a).1)
      (fun _ a h => (stepsTo_step h a).2) new inv_new actions
  rw [hinv.accurate_iff, hexact]
  exact and_iff_right exact_new

end Steps

/-- A stream that has ended and is not yet replaced fails a subscribe that stays counted. -/
theorem registry_drifts_on_closed_stream :
    ¬∀ actions : List (ConsumerAction (Bool ×ₗ Nat) Nat Message),
      (run step (new : RemoteSubscriptions (Bool ×ₗ Nat) Nat Message) actions).Accurate := by
  intro h
  have haccurate := h [.connect, .closeStream,
    .subscribe ⟨0, .ok [toLex (false, 7)]⟩ fun _ => 1]
  have hlive : ∃ c ∈ (run step (new : RemoteSubscriptions (Bool ×ₗ Nat) Nat Message) [.connect,
      .closeStream, .subscribe ⟨0, .ok [toLex (false, 7)]⟩ fun _ => 1]).live,
      toLex (false, 7) ∈ c.inner.subscribedTo :=
    (haccurate.remote (toLex (false, 7))).mp ⟨⟨1, 1⟩, by decide +kernel⟩
  obtain ⟨c, hc, -⟩ := hlive
  exact List.not_mem_nil hc

end RemoteSubscriptions

end Cdk
