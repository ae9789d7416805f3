import Cdk.PubSub.Pubsub

/-!
# What a subscription is delivered

A run subscribes, publishes, receives and drops in any order, with every
backfill empty. While a subscription is held, its sink has the publications
that have one of its topics: `latest` is the last of them, and the channel has
each that differs from the one before.
-/

namespace Cdk

open Lib

section Repeats

variable {E : Type} [BEq E]

def Differs (a b : E) : Prop := (a == b) = false

instance : DecidableRel (Differs (E := E)) := fun a b =>
  inferInstanceAs (Decidable ((a == b) = false))

/-- A list without the elements that equal the one left before them. -/
def withoutRepeats (events : List E) : List E := events.destutter Differs

/-- Comparing with the last element of all decides as comparing with the last one left does. -/
theorem withoutRepeats_append [EquivBEq E] (events : List E) (event : E) :
    withoutRepeats (events ++ [event]) =
      withoutRepeats events ++ if events.getLast?.any (· == event) then [] else [event] := by
  cases events with
  | nil => simp [withoutRepeats]
  | cons first rest =>
      simp only [withoutRepeats, List.cons_append, List.destutter_cons']
      induction rest generalizing first with
      | nil => cases h : first == event <;> simp [List.destutter', Differs, h]
      | cons next rest ih =>
          cases h : first == next with
          | false =>
              have hdiffers : Differs first next := h
              rw [List.cons_append, List.destutter'_cons_pos _ hdiffers,
                List.destutter'_cons_pos _ hdiffers, ih]
              rfl
          | true =>
              have hsame : ¬Differs first next := by simp [Differs, h]
              rw [List.cons_append, List.destutter'_cons_neg _ hsame,
                List.destutter'_cons_neg _ hsame, ih]
              cases rest with
              | nil => simp [BEq.congr_left h]
              | cons last rest => simp

end Repeats

/-- The hub and the subscriptions that its callers hold. -/
structure Subscriptions (T N E : Type) [LinearOrder T] where
  pubsub : Pubsub T N E
  held : List (ActiveSubscription T N)

inductive PubsubAction (T N E : Type) where
  | subscribe (request : SubscriptionRequest T N)
  | publishNow (event : E)
  | recv (id : Nat)
  | drop (id : Nat)

namespace Subscriptions

variable {T N E : Type} [LinearOrder T] [BEq E] [Event E T]

def new : Subscriptions T N E := ⟨.new, []⟩

def step (s : Subscriptions T N E) : PubsubAction T N E → Subscriptions T N E
  | .subscribe request =>
      match s.pubsub.subscribe request with
      | (.ok subscription, pubsub) => ⟨pubsub, s.held ++ [subscription]⟩
      | (.error _, pubsub) => { s with pubsub := pubsub }
  | .publishNow event => { s with pubsub := s.pubsub.publishInternal event }
  | .recv id =>
      { s with pubsub := { s.pubsub with
          sinks := Function.update s.pubsub.sinks id (s.pubsub.sinks id).tryRecv } }
  | .drop id =>
      match s.held.find? (·.id = id) with
      | none => s
      | some subscription =>
          ⟨s.pubsub.dropSubscription subscription, s.held.filter fun other => other.id ≠ id⟩

/-- A topic of the event is in the list. -/
def Matches (topics : List T) (event : E) : Prop :=
  ∃ topic ∈ Event.getTopics event, topic ∈ topics

instance (topics : List T) (event : E) : Decidable (Matches topics event) :=
  inferInstanceAs (Decidable (∃ topic ∈ Event.getTopics event, topic ∈ topics))

/-- The publications of a run that have one of the topics. -/
def published (topics : List T) (actions : List (PubsubAction T N E)) : List E :=
  actions.flatMap fun
    | .publishNow event => if Matches topics event then [event] else []
    | _ => []

def Consistent (s : Subscriptions T N E) : Prop := s.pubsub.Registered s.held

variable {s : Subscriptions T N E}

/-- A subscribe either takes an id and registers nothing or adds a held subscription with it. -/
theorem step_subscribe_cases (s : Subscriptions T N E) (request : SubscriptionRequest T N) :
    (∃ e, request.tryGetTopics = .error e ∧
      s.step (.subscribe request) = ⟨(s.pubsub.subscribe request).2, s.held⟩) ∨
    ∃ topics, request.tryGetTopics = .ok topics ∧
      s.step (.subscribe request) = ⟨(s.pubsub.subscribe request).2,
        s.held ++ [⟨s.pubsub.uniqueSubscriptionCounter, request.subscriptionName, topics⟩]⟩ := by
  cases h : request.tryGetTopics with
  | error e => exact Or.inl ⟨e, rfl, by simp only [step, Pubsub.subscribe_error h]⟩
  | ok topics => exact Or.inr ⟨topics, rfl, by simp only [step, Pubsub.subscribe_ok h]⟩

/-- A drop changes nothing or takes a held subscription away. -/
theorem step_drop_cases (s : Subscriptions T N E) (id : Nat) :
    ((∀ other ∈ s.held, other.id ≠ id) ∧ s.step (.drop id) = s) ∨
    ∃ subscription ∈ s.held, subscription.id = id ∧
      s.step (.drop id) = ⟨s.pubsub.dropSubscription subscription,
        s.held.filter fun other => other.id ≠ subscription.id⟩ := by
  cases h : s.held.find? (·.id = id) with
  | none =>
      refine Or.inl ⟨by simpa using h, ?_⟩
      simp only [step, h]
  | some subscription =>
      have hid : subscription.id = id := by simpa using List.find?_some h
      refine Or.inr ⟨subscription, List.mem_of_find?_eq_some h, hid, ?_⟩
      simp only [step, h, hid]

theorem Consistent.step (h : s.Consistent) (a : PubsubAction T N E) : (s.step a).Consistent := by
  cases a with
  | subscribe request =>
      obtain ⟨e, hrequest, heq⟩ | ⟨topics, hrequest, heq⟩ := s.step_subscribe_cases request
      · rw [heq]
        exact Pubsub.Registered.subscribe_error h hrequest
      · rw [heq]
        exact Pubsub.Registered.subscribe_ok h hrequest
  | publishNow event => exact Pubsub.Registered.publishInternal h event
  | recv id => exact ⟨h.listeners, h.ids_nodup, h.ids_lt⟩
  | drop id =>
      obtain ⟨-, heq⟩ | ⟨subscription, hs, -, heq⟩ := s.step_drop_cases id
      · rwa [heq]
      · rw [heq]
        exact Pubsub.Registered.dropSubscription h hs

theorem consistent_run (actions : List (PubsubAction T N E)) :
    (run step new actions).Consistent :=
  invariant_run (fun _ a h => h.step a)
    (show (new : Subscriptions T N E).Consistent from Pubsub.registered_new) actions

theorem counter_le_step (s : Subscriptions T N E) (a : PubsubAction T N E) :
    s.pubsub.uniqueSubscriptionCounter ≤ (s.step a).pubsub.uniqueSubscriptionCounter := by
  cases a with
  | subscribe request =>
      obtain ⟨e, -, heq⟩ | ⟨topics, -, heq⟩ := s.step_subscribe_cases request <;>
        simp [heq]
  | publishNow event => exact Nat.le_refl _
  | recv id => exact Nat.le_refl _
  | drop id =>
      obtain ⟨-, heq⟩ | ⟨subscription, -, -, heq⟩ := s.step_drop_cases id <;> rw [heq]
      exact Nat.le_refl _

/-- Only a drop of its own ends a subscription. -/
theorem held_step {subscription : ActiveSubscription T N} (hs : subscription ∈ s.held)
    {a : PubsubAction T N E} (ha : a ≠ .drop subscription.id) : subscription ∈ (s.step a).held := by
  cases a with
  | subscribe request =>
      obtain ⟨e, -, heq⟩ | ⟨topics, -, heq⟩ := s.step_subscribe_cases request <;>
        simp [heq, hs]
  | publishNow event => exact hs
  | recv id => exact hs
  | drop id =>
      obtain ⟨-, heq⟩ | ⟨other, -, rfl, heq⟩ := s.step_drop_cases id
      · rwa [heq]
      · have hne : subscription.id ≠ other.id := fun h => ha (by rw [h])
        simp [heq, hs, hne]

/-- A new subscription takes a new id. -/
theorem not_held_step {id : Nat} (hlt : id < s.pubsub.uniqueSubscriptionCounter)
    (hid : ∀ other ∈ s.held, other.id ≠ id) (a : PubsubAction T N E) :
    ∀ other ∈ (s.step a).held, other.id ≠ id := by
  cases a with
  | subscribe request =>
      obtain ⟨e, -, heq⟩ | ⟨topics, -, heq⟩ := s.step_subscribe_cases request
      · rwa [heq]
      · rw [heq, List.forall_mem_append]
        exact ⟨hid, by simpa using hlt.ne'⟩
  | publishNow event => exact hid
  | recv id => exact hid
  | drop id =>
      obtain ⟨-, heq⟩ | ⟨subscription, -, -, heq⟩ := s.step_drop_cases id
      · rwa [heq]
      · rw [heq]
        exact fun other hother => hid other (List.mem_of_mem_filter hother)

/-- Nothing is sent under a taken id other than by a publication. -/
theorem step_sink {id : Nat} (hlt : id < s.pubsub.uniqueSubscriptionCounter)
    {a : PubsubAction T N E} (ha : ∀ event, a ≠ .publishNow event) :
    ((s.step a).pubsub.sinks id).latest = (s.pubsub.sinks id).latest ∧
      ((s.step a).pubsub.sinks id).delivered = (s.pubsub.sinks id).delivered := by
  cases a with
  | subscribe request =>
      have hsinks : (s.step (.subscribe request)).pubsub.sinks id = s.pubsub.sinks id := by
        obtain ⟨e, -, heq⟩ | ⟨topics, -, heq⟩ := s.step_subscribe_cases request <;>
          simp [heq, Function.update_of_ne hlt.ne]
      simp [hsinks]
  | publishNow event => exact absurd rfl (ha event)
  | recv other =>
      by_cases h : id = other
      · subst h
        simp [step]
      · simp [step, Function.update_of_ne h]
  | drop other =>
      obtain ⟨-, heq⟩ | ⟨subscription, -, -, heq⟩ := s.step_drop_cases other <;> rw [heq]
      · exact ⟨rfl, rfl⟩
      · exact ⟨rfl, rfl⟩

/-- A held subscription whose sink has got some publications. -/
structure HasGot (s : Subscriptions T N E) (subscription : ActiveSubscription T N)
    (events : List E) : Prop where
  consistent : s.Consistent
  held : subscription ∈ s.held
  latest : (s.pubsub.sinks subscription.id).latest = events.getLast?
  delivered : (s.pubsub.sinks subscription.id).delivered =
    (withoutRepeats events).map (subscription.name, ·)

section Live

variable [EquivBEq E] {subscription : ActiveSubscription T N} {events : List E}

theorem HasGot.publishNow (h : s.HasGot subscription events)
    (hroom : (s.pubsub.sinks subscription.id).HasRoom) (event : E) :
    (s.step (.publishNow event)).HasGot subscription
      (events ++ if Matches subscription.subscribedTo event then [event] else []) := by
  have hsinks := h.consistent.publishInternal_sinks h.held event
  by_cases hmatch : Matches subscription.subscribedTo event
  · have hsent := hsinks.trans (if_pos hmatch)
    rw [if_pos hmatch]
    refine ⟨h.consistent.step _, h.held, ?_, ?_⟩
    · rw [Subscriptions.step, hsent, Sink.send_latest, List.getLast?_concat]
    · rw [Subscriptions.step, hsent, Sink.send_delivered hroom, h.delivered, h.latest,
        withoutRepeats_append, List.map_append]
      split <;> rfl
  · have hkept := hsinks.trans (if_neg hmatch)
    rw [if_neg hmatch, List.append_nil]
    refine ⟨h.consistent.step _, h.held, ?_, ?_⟩
    · rw [Subscriptions.step, hkept, h.latest]
    · rw [Subscriptions.step, hkept, h.delivered]

theorem HasGot.step (h : s.HasGot subscription events)
    (hroom : (s.pubsub.sinks subscription.id).HasRoom) {a : PubsubAction T N E}
    (ha : a ≠ .drop subscription.id) :
    (s.step a).HasGot subscription (events ++ published subscription.subscribedTo [a]) := by
  by_cases hpublish : ∃ event, a = .publishNow event
  · obtain ⟨event, rfl⟩ := hpublish
    simpa [published] using h.publishNow hroom event
  · have hquiet : ∀ event, a ≠ .publishNow event := fun event heq => hpublish ⟨event, heq⟩
    have hnone : published subscription.subscribedTo [a] = [] := by
      cases a with
      | publishNow event => exact absurd rfl (hquiet event)
      | subscribe request => rfl
      | recv id => rfl
      | drop id => rfl
    obtain ⟨hlatest, hdelivered⟩ :=
      step_sink (h.consistent.ids_lt subscription h.held) hquiet
    rw [hnone, List.append_nil]
    exact ⟨h.consistent.step a, held_step h.held ha, hlatest.trans h.latest,
      hdelivered.trans h.delivered⟩

/-- While it is held, a subscription gets the publications that have one of its topics. -/
theorem HasGot.run (h : s.HasGot subscription events) {during : List (PubsubAction T N E)}
    (hheld : .drop subscription.id ∉ during)
    (hroom : Along Subscriptions.step
      (fun s _ => (s.pubsub.sinks subscription.id).HasRoom) s during) :
    (run Subscriptions.step s during).HasGot subscription
      (events ++ published subscription.subscribedTo during) := by
  induction during generalizing s events with
  | nil => simpa [published] using h
  | cons a rest ih =>
      rw [List.mem_cons, not_or] at hheld
      have hnext := ih (h.step hroom.1 (Ne.symm hheld.1)) hheld.2 hroom.2
      simpa [published] using hnext

end Live

/-- Nothing is sent to a subscription that has been dropped. -/
theorem dropped_run {id : Nat} (name : N) (h : s.Consistent)
    (hlt : id < s.pubsub.uniqueSubscriptionCounter) (hid : ∀ other ∈ s.held, other.id ≠ id)
    (after : List (PubsubAction T N E)) :
    ((run step s after).pubsub.sinks id).latest = (s.pubsub.sinks id).latest ∧
      ((run step s after).pubsub.sinks id).delivered = (s.pubsub.sinks id).delivered := by
  induction after generalizing s with
  | nil => exact ⟨rfl, rfl⟩
  | cons a rest ih =>
      have hstep : ((s.step a).pubsub.sinks id).latest = (s.pubsub.sinks id).latest ∧
          ((s.step a).pubsub.sinks id).delivered = (s.pubsub.sinks id).delivered := by
        by_cases hpublish : ∃ event, a = .publishNow event
        · obtain ⟨event, rfl⟩ := hpublish
          have hsinks := h.publishInternal_sinks_of_not_mem hid event name
          exact ⟨by rw [step, hsinks], by rw [step, hsinks]⟩
        · exact step_sink hlt fun event heq => hpublish ⟨event, heq⟩
      obtain ⟨hlatest, hdelivered⟩ := ih (h.step a)
        (hlt.trans_le (s.counter_le_step a)) (not_held_step hlt hid a)
      exact ⟨hlatest.trans hstep.1, hdelivered.trans hstep.2⟩

/-- The state after a subscribe whose topics parse. -/
theorem hasGot_subscribe (h : s.Consistent) (name : N) (topics : List T) :
    (s.step (.subscribe ⟨name, .ok topics⟩)).HasGot
      ⟨s.pubsub.uniqueSubscriptionCounter, name, topics⟩ [] := by
  have hrequest : (⟨name, .ok topics⟩ : SubscriptionRequest T N).tryGetTopics = .ok topics := rfl
  have hsubscribe := Pubsub.subscribe_ok (s := s.pubsub) hrequest
  exact ⟨h.step _, by simp [step, hsubscribe], by simp [step, hsubscribe],
    by simp [step, hsubscribe, withoutRepeats]⟩

theorem HasGot.drop_not_held {subscription : ActiveSubscription T N} {events : List E}
    (h : s.HasGot subscription events) :
    (s.step (.drop subscription.id)).pubsub.sinks = s.pubsub.sinks ∧
      ∀ other ∈ (s.step (.drop subscription.id)).held, other.id ≠ subscription.id := by
  obtain ⟨hnone, -⟩ | ⟨other, -, hid, heq⟩ := s.step_drop_cases subscription.id
  · exact absurd rfl (hnone subscription h.held)
  · rw [heq]
    exact ⟨rfl, by simp [hid]⟩

/-- A subscription that is held is delivered each publication that has one of its topics, once and
in their order, and without those that equal the one delivered before; after its drop nothing more
is sent to it. -/
theorem delivery_exact [EquivBEq E] (before during after : List (PubsubAction T N E)) (name : N)
    (topics : List T) {id : Nat} {first live dropped : Subscriptions T N E}
    (hid : id = (run step new before).pubsub.uniqueSubscriptionCounter)
    (hfirst : first = run step new (before ++ [.subscribe ⟨name, .ok topics⟩]))
    (hlive : live = run step first during)
    (hdropped : dropped = run step live (.drop id :: after))
    (hheld : .drop id ∉ during)
    (hroom : Along step (fun s _ => (s.pubsub.sinks id).HasRoom) first during) :
    ⟨id, name, topics⟩ ∈ live.held ∧
      (live.pubsub.sinks id).delivered =
        (withoutRepeats (published topics during)).map (name, ·) ∧
      (dropped.pubsub.sinks id).latest = (live.pubsub.sinks id).latest ∧
      (dropped.pubsub.sinks id).delivered = (live.pubsub.sinks id).delivered := by
  have hsubscribed : first.HasGot ⟨id, name, topics⟩ [] := by
    rw [hfirst, hid, run_append]
    exact hasGot_subscribe (consistent_run before) name topics
  have hgot : live.HasGot ⟨id, name, topics⟩ (published topics during) := by
    rw [hlive]
    exact hsubscribed.run hheld hroom
  have hlt : id < live.pubsub.uniqueSubscriptionCounter := hgot.consistent.ids_lt _ hgot.held
  obtain ⟨hsinks, hgone⟩ := hgot.drop_not_held
  obtain ⟨hlatest, hdelivered⟩ := dropped_run name (hgot.consistent.step (.drop id))
    (hlt.trans_le (live.counter_le_step (.drop id))) hgone after
  rw [hdropped, run_cons]
  exact ⟨hgot.held, hgot.delivered, by rw [hlatest, hsinks], by rw [hdelivered, hsinks]⟩

theorem delivery_exact_messages :
    ((run step (run step new ([.subscribe ⟨"a", .error (.parsingError "")⟩] ++
        [.subscribe ⟨"b", .ok [Message.fooTopic 2, Message.barTopic 2, Message.fooTopic 2]⟩]))
      [.publishNow ⟨2, 1⟩, .publishNow ⟨2, 1⟩, .recv 1, .publishNow (⟨2, 2⟩ : Message),
        .publishNow ⟨3, 3⟩]).pubsub.sinks 1).delivered = [("b", ⟨2, 1⟩), ("b", ⟨2, 2⟩)] :=
  (delivery_exact _ _ [] "b" _ (by decide +kernel) rfl rfl rfl (by simp)
    (by decide +kernel)).2.1.trans (by decide +kernel)

end Subscriptions

end Cdk
