import Cdk.Mint.Notifications

/-!
# The order of notifications

Where every notification is sent in time, and no change of a state that a
subscriber has been told goes unpublished or is taken back, the last states
that a subscriber is told are the committed ones, and `Spent` is final.

Nothing in the tasks brings this about: a task of an older state may run after
the task of a newer one.
-/

namespace Cdk

open Lib

namespace MintNotifications

variable {Y N : Type} [LinearOrder Y]

def announced (s : MintNotifications Y N) (y : Y) : Option State := (s.rows y).announced

def committed (s : MintNotifications Y N) (y : Y) : Option State := (s.rows y).committed

/-- The next event of a backfill is sent in time. -/
def SendsTimely (s : MintNotifications Y N) (id : Nat) : Backfill Y → Prop
  | .sending (event :: rest) => ∀ subscription ∈ s.hub.held, subscription.id = id →
      MaySend s.announced s.committed s.spawned (.sending rest) (s.hub.pubsub.sinks id) event
  | .sending [] => True
  | .unread _ => True

/-- No notification is sent late, a removal is committed only of proofs that no live subscriber has
been told of, and a published change is taken back only where none has been told it. -/
def Timely (s : MintNotifications Y N) : NotificationAction Y N → Prop
  | .runSpawned index => ∀ event ∈ s.spawned[index]?, ∀ subscription ∈ s.hub.held,
      event.y ∈ subscription.subscribedTo →
        MaySend s.announced s.committed (s.spawned.eraseIdx index)
          (s.backfills subscription.id) (s.hub.pubsub.sinks subscription.id) event
  | .sendBackfill id => s.SendsTimely id (s.backfills id)
  | .commit writer => ∀ y ∈ s.writes writer, ∀ o ∈ (s.rows y).openChange, o.change = .remove →
      ∀ subscription ∈ s.hub.held, y ∈ subscription.subscribedTo →
        lastState (s.received subscription.id) y = none
  | .abort writer => ∀ y ∈ s.writes writer, ∀ o ∈ (s.rows y).openChange, o.published →
      ∀ subscription ∈ s.hub.held, y ∈ subscription.subscribedTo →
        lastState (s.received subscription.id) y = none ∨
          lastState (s.received subscription.id) y = s.committed y
  | _ => True

instance (s : MintNotifications Y N) (id : Nat) : ∀ b : Backfill Y, Decidable (s.SendsTimely id b)
  | .sending (event :: rest) =>
      inferInstanceAs (Decidable (∀ subscription ∈ s.hub.held, subscription.id = id →
        MaySend s.announced s.committed s.spawned (.sending rest) (s.hub.pubsub.sinks id) event))
  | .sending [] => inferInstanceAs (Decidable True)
  | .unread _ => inferInstanceAs (Decidable True)

instance (s : MintNotifications Y N) : ∀ a : NotificationAction Y N, Decidable (s.Timely a)
  | .runSpawned index =>
      inferInstanceAs (Decidable (∀ event ∈ s.spawned[index]?, ∀ subscription ∈ s.hub.held,
        event.y ∈ subscription.subscribedTo →
          MaySend s.announced s.committed (s.spawned.eraseIdx index)
            (s.backfills subscription.id) (s.hub.pubsub.sinks subscription.id) event))
  | .sendBackfill id => inferInstanceAs (Decidable (s.SendsTimely id (s.backfills id)))
  | .commit writer =>
      inferInstanceAs (Decidable (∀ y ∈ s.writes writer, ∀ o ∈ (s.rows y).openChange,
        o.change = .remove → ∀ subscription ∈ s.hub.held, y ∈ subscription.subscribedTo →
          lastState (s.received subscription.id) y = none))
  | .abort writer =>
      inferInstanceAs (Decidable (∀ y ∈ s.writes writer, ∀ o ∈ (s.rows y).openChange,
        o.published → ∀ subscription ∈ s.hub.held, y ∈ subscription.subscribedTo →
          lastState (s.received subscription.id) y = none ∨
            lastState (s.received subscription.id) y = s.committed y))
  | .begin .. | .publish .. | .subscribe _ | .recv _ | .drop _ | .readBackfill _ =>
      inferInstanceAs (Decidable True)

/-- What holds in every run whose steps are timely. -/
structure Inv (s : MintNotifications Y N) : Prop where
  consistent : s.hub.Consistent
  allowed : ∀ y o, (s.rows y).openChange = some o →
    o.change.allowed (s.rows y).committed
  told : ∀ subscription ∈ s.hub.held, Told s.announced s.committed s.spawned
    (s.backfills subscription.id) subscription.subscribedTo
    (s.hub.pubsub.sinks subscription.id)

variable {s : MintNotifications Y N}

theorem inv_new (committed : Y → Option State) : (new committed : MintNotifications Y N).Inv where
  consistent := Pubsub.registered_new
  allowed := by simp [new]
  told := by simp [new, Subscriptions.new]

/-- A change that a transaction of the database makes may begin on the rows, and its commit gives the
states of the database after it. -/
theorem begin_of_changes [LinearOrder PublicKey] {t : MintNotifications PublicKey N}
    {change : ProofChange} {ys : List PublicKey} {db db' : Db} (h : Db.Changes change ys db db')
    (hcommitted : ∀ y, t.committed y = db.proofState y)
    (hfree : ∀ y ∈ ys, (t.rows y).openChange = none) {writer : Nat} (hwriter : t.writes writer = [])
    (y : PublicKey) :
    if y ∈ ys then ((t.begin writer change ys).rows y).commit = ⟨db'.proofState y, none⟩
    else ((t.begin writer change ys).rows y).committed = db'.proofState y := by
  have hguard : t.writes writer = [] ∧ ∀ y ∈ ys, (t.rows y).openChange = none ∧
      change.allowed (t.rows y).committed := by
    refine ⟨hwriter, fun y hy => ⟨hfree y hy, ?_⟩⟩
    have hallowed := h.allowed y hy
    rwa [← hcommitted y] at hallowed
  rw [MintNotifications.begin, if_pos hguard]
  split
  · next hy =>
      simp only [if_pos hy, StateRow.begin]
      rw [StateRow.commit_of_some rfl, h.result y hy]
  · next hy =>
      simp only [if_neg hy]
      exact (hcommitted y).trans (h.frame y hy).symm

theorem Inv.begin (h : s.Inv) (writer : Nat) (change : ProofChange) (ys : List Y) :
    (s.begin writer change ys).Inv := by
  unfold MintNotifications.begin
  split
  · next hfree =>
      refine ⟨h.consistent, fun y o ho => ?_, fun subscription hs =>
        (h.told subscription hs).states fun y => Or.inl ⟨?_, Or.inl ?_⟩⟩
      · dsimp only at ho ⊢
        split at ho
        · next hy =>
            rw [if_pos hy]
            cases ho
            exact (hfree.2 y hy).2
        · next hy =>
            rw [if_neg hy]
            exact h.allowed y o ho
      · simp only [announced]
        split
        · next hy => simp [StateRow.announced, StateRow.begin, (hfree.2 y hy).1]
        · rfl
      · simp only [committed]
        split <;> rfl
  · exact h

theorem Inv.publish (h : s.Inv) (writer : Nat) (y : Y) : (s.publish writer y).Inv := by
  unfold MintNotifications.publish
  split
  · next owner change hopen =>
      split
      · next state hresult =>
          split
          · have hallowed := h.allowed y _ hopen
            have hspent : s.announced y ≠ some .spent := by
              rw [announced, StateRow.announced_of_unpublished hopen rfl]
              exact ProofChange.not_spent_of_allowed hallowed
            refine ⟨h.consistent, fun other o ho => ?_, fun subscription hs => ?_⟩
            · dsimp only at ho ⊢
              by_cases heq : other = y
              · subst heq
                rw [Function.update_self] at ho ⊢
                cases ho
                exact hallowed
              · rw [Function.update_of_ne heq] at ho ⊢
                exact h.allowed other o ho
            · convert (h.told subscription hs).publish hspent state using 1
              · funext other
                by_cases heq : other = y
                · subst heq
                  simp [announced, StateRow.announced, hresult]
                · simp [announced, heq]
              · funext other
                by_cases heq : other = y
                · subst heq
                  simp [committed]
                · simp [committed, heq]
          · exact h
      · exact h
  · exact h

theorem Inv.commit (h : s.Inv) {writer : Nat} (htimely : s.Timely (.commit writer)) :
    (s.commit writer).Inv := by
  unfold MintNotifications.commit
  split
  · next hready =>
      refine ⟨h.consistent, fun y o ho => ?_, fun subscription hs =>
        (h.told subscription hs).states fun y => ?_⟩
      · dsimp only at ho ⊢
        split at ho
        · rw [StateRow.commit_openChange] at ho
          cases ho
        · next hy =>
            rw [if_neg hy]
            exact h.allowed y o ho
      · by_cases hy : y ∈ s.writes writer
        · simp only [announced, committed, if_pos hy]
          cases hopen : (s.rows y).openChange with
          | none =>
              rw [StateRow.commit_of_none hopen]
              exact Or.inl ⟨rfl, Or.inl rfl⟩
          | some o =>
              rw [StateRow.commit_of_some hopen]
              obtain hpublished | hremove := hready y hy o hopen
              · rw [StateRow.announced_of_published hopen hpublished]
                exact Or.inl ⟨rfl, Or.inr rfl⟩
              · refine Or.inr (Or.inl ?_)
                by_cases htopic : y ∈ subscription.subscribedTo
                · exact htimely y hy o hopen hremove subscription hs htopic
                · exact (h.told subscription hs).lastState_of_not_mem htopic
        · simp [announced, committed, hy]
  · exact h

theorem Inv.abort (h : s.Inv) {writer : Nat} (htimely : s.Timely (.abort writer)) :
    (s.abort writer).Inv := by
  refine ⟨h.consistent, fun y o ho => ?_, fun subscription hs =>
    (h.told subscription hs).states fun y => ?_⟩
  · dsimp only [MintNotifications.abort] at ho ⊢
    split at ho
    · cases ho
    · next hy =>
        rw [if_neg hy]
        exact h.allowed y o ho
  · by_cases hy : y ∈ s.writes writer
    · simp only [announced, committed, MintNotifications.abort, if_pos hy]
      have habort : (s.rows y).abort.announced = (s.rows y).committed := rfl
      cases hopen : (s.rows y).openChange with
      | none => exact Or.inl ⟨habort.trans (StateRow.announced_of_none hopen).symm, Or.inl rfl⟩
      | some o =>
          cases hpublished : o.published with
          | false =>
              exact Or.inl
                ⟨habort.trans (StateRow.announced_of_unpublished hopen hpublished).symm, Or.inl rfl⟩
          | true =>
              refine Or.inr ?_
              by_cases htopic : y ∈ subscription.subscribedTo
              · exact htimely y hy o hopen hpublished subscription hs htopic
              · exact Or.inl ((h.told subscription hs).lastState_of_not_mem htopic)
    · simp [announced, committed, MintNotifications.abort, hy]

theorem mem_eraseIdx_of_ne {α : Type} {l : List α} {index : Nat} {a b : α}
    (hget : l[index]? = some a) (hb : b ∈ l) (hne : b ≠ a) : b ∈ l.eraseIdx index := by
  obtain ⟨j, hj⟩ := List.mem_iff_getElem?.mp hb
  refine List.mem_eraseIdx_iff_getElem?.mpr ⟨j, ?_, hj⟩
  rintro rfl
  exact hne (Option.some.inj (hj.symm.trans hget))

theorem Inv.runSpawned (h : s.Inv) {index : Nat} (htimely : s.Timely (.runSpawned index)) :
    (s.runSpawned index).Inv := by
  unfold MintNotifications.runSpawned
  split
  · exact h
  · next event hget =>
      refine ⟨h.consistent.step _, h.allowed, fun subscription hs => ?_⟩
      have htold := h.told subscription hs
      have hsinks : ((s.hub.step (.publishNow event)).pubsub.sinks subscription.id) =
          if event.y ∈ subscription.subscribedTo then
            (s.hub.pubsub.sinks subscription.id).send subscription.name event
          else s.hub.pubsub.sinks subscription.id :=
        (h.consistent.publishInternal_sinks hs event).trans (if_congr (by simp [Event.getTopics])
          rfl rfl)
      rw [hsinks]
      split
      · next htopic =>
          refine htold.send htopic (htimely event hget subscription hs htopic) htold.within
            (fun e he => Or.imp_left fun hmem => mem_eraseIdx_of_ne hget hmem he) _
      · next htopic =>
          exact htold.of_spawned htopic fun e hmem he => mem_eraseIdx_of_ne hget hmem he

theorem Inv.hub_step (h : s.Inv) {a : PubsubAction Y N (ProofState Y)}
    (hquiet : ∀ event, a ≠ .publishNow event)
    (hheld : ∀ subscription ∈ (s.hub.step a).held, subscription ∈ s.hub.held) :
    Inv { s with hub := s.hub.step a } := by
  refine ⟨h.consistent.step a, h.allowed, fun subscription hs => ?_⟩
  have hmem := hheld subscription hs
  obtain ⟨hlatest, hdelivered⟩ :=
    Subscriptions.step_sink (h.consistent.ids_lt subscription hmem) hquiet
  exact (h.told subscription hmem).of_sink hlatest hdelivered

theorem Inv.subscribe (h : s.Inv) (request : SubscriptionRequest Y N) :
    (s.subscribe request).Inv := by
  unfold MintNotifications.subscribe
  obtain ⟨e, hrequest, heq⟩ | ⟨topics, hrequest, heq⟩ := s.hub.step_subscribe_cases request
  · simp only [hrequest]
    exact h.hub_step (by simp) (by simp [heq])
  · simp only [hrequest]
    refine ⟨h.consistent.step _, h.allowed, fun subscription hs => ?_⟩
    rw [heq, List.mem_append, List.mem_singleton] at hs
    obtain hs | rfl := hs
    · have hlt := h.consistent.ids_lt subscription hs
      obtain ⟨hlatest, hdelivered⟩ := Subscriptions.step_sink (a := .subscribe request) hlt (by simp)
      dsimp only
      rw [Function.update_of_ne hlt.ne]
      exact (h.told subscription hs).of_sink hlatest hdelivered
    · have hsink : (s.hub.step (.subscribe request)).pubsub.sinks
          s.hub.pubsub.uniqueSubscriptionCounter = .new := by simp [heq]
      dsimp only
      rw [Function.update_self, hsink]
      exact told_new

theorem Inv.readBackfill (h : s.Inv) (id : Nat) : (s.step (.readBackfill id)).Inv := by
  refine ⟨h.consistent, h.allowed, fun subscription hs => ?_⟩
  have htold := h.told subscription hs
  by_cases hid : subscription.id = id
  · subst hid
    simp only [step, Function.update_self]
    exact htold.read
  · simp only [step, Function.update_of_ne hid]
    exact htold

theorem Inv.sendBackfill (h : s.Inv) {id : Nat} (htimely : s.Timely (.sendBackfill id)) :
    (s.sendBackfill id).Inv := by
  unfold MintNotifications.sendBackfill
  split
  · next event rest hbackfill =>
      rw [Timely, hbackfill] at htimely
      have hother : ∀ subscription : ActiveSubscription Y N, subscription.id ≠ id →
          Function.update s.backfills id (.sending rest) subscription.id =
            s.backfills subscription.id :=
        fun subscription hid => Function.update_of_ne hid _ _
      cases hfind : s.hub.held.find? (·.id = id) with
      | none =>
          refine ⟨h.consistent, h.allowed, fun subscription hs => ?_⟩
          have hid : subscription.id ≠ id := by simpa using List.find?_eq_none.mp hfind _ hs
          dsimp only
          rw [hother subscription hid]
          exact h.told subscription hs
      | some target =>
          have htarget : target ∈ s.hub.held := List.mem_of_find?_eq_some hfind
          obtain rfl : target.id = id := by simpa using List.find?_some hfind
          refine ⟨⟨h.consistent.listeners, h.consistent.ids_nodup, h.consistent.ids_lt⟩, h.allowed,
            fun subscription hs => ?_⟩
          dsimp only [Subscriber.send, ActiveSubscription.sender]
          by_cases hid : subscription.id = target.id
          · obtain rfl := h.consistent.eq_of_id hs htarget hid
            have htold := h.told subscription hs
            rw [hbackfill] at htold
            rw [Function.update_self, Function.update_self]
            obtain ⟨hfirst, hrest⟩ := List.forall_mem_cons.mp htold.within
            refine htold.send hfirst (htimely subscription hs rfl) hrest (fun e he => ?_) _
            exact Or.imp_right fun hmem => (List.mem_cons.mp hmem).resolve_left he
          · rw [hother subscription hid, Function.update_of_ne hid]
            exact h.told subscription hs
  · exact h

/-- A timely step keeps the invariant. -/
theorem Inv.step (h : s.Inv) (a : NotificationAction Y N) (htimely : s.Timely a) :
    (s.step a).Inv := by
  cases a with
  | begin writer change ys => exact h.begin writer change ys
  | publish writer y => exact h.publish writer y
  | commit writer => exact h.commit htimely
  | abort writer => exact h.abort htimely
  | runSpawned index => exact h.runSpawned htimely
  | subscribe request => exact h.subscribe request
  | recv id => exact h.hub_step (by simp) fun subscription hs => hs
  | drop id =>
      refine h.hub_step (by simp) fun subscription hs => ?_
      obtain ⟨-, heq⟩ | ⟨dropped, -, -, heq⟩ := s.hub.step_drop_cases id
      · rwa [heq] at hs
      · rw [heq] at hs
        exact List.mem_of_mem_filter hs
  | readBackfill id => exact h.readBackfill id
  | sendBackfill id => exact h.sendBackfill htimely

/-- What the notifications of a live subscriber come to: `Spent` is final, and once no task is left
the last state told of a proof that no open transaction changes is the committed one. -/
def Settles (s : MintNotifications Y N) : Prop :=
  ∀ subscription ∈ s.hub.held, SpentIsFinal (s.received subscription.id) ∧
    (s.spawned = [] → s.backfills subscription.id = .sending [] →
      ∀ y state, (s.rows y).openChange = none →
        lastState (s.received subscription.id) y = some state → s.committed y = some state)

theorem Inv.settles (h : s.Inv) : s.Settles := by
  intro subscription hs
  have htold := h.told subscription hs
  refine ⟨htold.final, fun hspawned hbackfill y state hopen hlast => ?_⟩
  rw [committed, ← StateRow.announced_of_none hopen]
  refine (htold.settled y state hlast).resolve_right fun hcorrected => ?_
  obtain ⟨new, -, hsend⟩ := corrected_iff.mp hcorrected
  rw [hspawned, hbackfill] at hsend
  obtain hmem | hmem := hsend
  · exact List.not_mem_nil hmem
  · exact List.not_mem_nil hmem

/-- In every run whose steps are timely, the notifications settle on the committed states. -/
theorem notifications_settle {committed : Y → Option State}
    {actions : List (NotificationAction Y N)}
    (h : Along step Timely (new committed) actions) : (run step (new committed) actions).Settles :=
  (invariant_along (fun _ a hinv => hinv.step a) (inv_new committed) h).settles

/-- A swap whose notifications are sent in the order of its transactions. -/
theorem notifications_settle_swap :
    (run step (new fun _ => none) [.subscribe ⟨"a", .ok [7]⟩, .readBackfill 0, .begin 0 .setup [7],
      .publish 0 7, .commit 0, .begin 1 .finalize [7], .publish 1 7, .runSpawned 0, .commit 1,
      .runSpawned 0] : MintNotifications Nat String).Settles :=
  notifications_settle (by decide +kernel)

/-- The task of the first transaction of a swap may run after the task of the second one. -/
theorem pending_told_after_spent :
    ¬∀ actions : List (NotificationAction Nat String),
      (run step (new fun _ => none) actions).Settles := by
  intro h
  have hsettles := h [.subscribe ⟨"a", .ok [7]⟩, .readBackfill 0, .begin 0 .setup [7],
    .publish 0 7, .commit 0, .begin 1 .finalize [7], .publish 1 7, .commit 1, .runSpawned 1,
    .runSpawned 0] ⟨0, "a", [7]⟩ (by decide +kernel)
  exact absurd hsettles.1 (by unfold SpentIsFinal; decide +kernel)

end MintNotifications

end Cdk
