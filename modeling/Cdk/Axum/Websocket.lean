import Cdk.Lib.Runs
import Cdk.Lib.Table
import Cdk.PubSub.Delivery

/-!
# Subscriptions over a websocket

A connection answers requests to subscribe and to unsubscribe, and sends on what
its subscriptions receive: events of their topics, and at the start what the event
hub has read for these topics, whose own topics it does not look at. Each
subscription has a task that forwards its events over the one channel of the
connection. A connection that unsubscribes drops the handle of the task, which
does not end the task.
-/

namespace Cdk

open Lib

namespace Websocket

/-! ## Messages -/

/-- The errors that the handlers return. -/
inductive WsError where
  | parseError
  | invalidParams
deriving DecidableEq, Repr

structure WsErrorBody where
  code : Int
  message : String
deriving DecidableEq, Repr

/-- `From<WsError>`. -/
def WsErrorBody.ofError : WsError → WsErrorBody
  | .parseError => ⟨-32700, "Parse error"⟩
  | .invalidParams => ⟨-32602, "Invalid params"⟩

inductive WsMethodRequest (T N : Type) where
  | subscribe (params : SubscriptionRequest T N)
  | unsubscribe (subId : N)

structure WsRequest (T N : Type) where
  method : WsMethodRequest T N
  id : Nat

inductive WsResponseResult (N : Type) where
  | subscribe (status : String) (subId : N)
  | unsubscribe (status : String) (subId : N)
deriving DecidableEq, Repr

inductive WsMessageOrResponse (N E : Type) where
  | response (result : WsResponseResult N) (id : Nat)
  | errorResponse (error : WsErrorBody) (id : Nat)
  | notification (subId : N) (payload : E)
deriving DecidableEq, Repr

/-- `From<(usize, Result<WsResponseResult, WsErrorBody>)>`. -/
def WsMessageOrResponse.ofResult {N E : Type} (id : Nat) :
    Except WsError (WsResponseResult N) → WsMessageOrResponse N E
  | .ok result => .response result id
  | .error e => .errorResponse (.ofError e) id

/-- What the socket receives: a request, a text that is none, or a frame of another kind. -/
inductive FromWs (T N : Type) where
  | request (request : WsRequest T N)
  | unreadable
  | ping
  | pong
  | close
  | error

/-- What the socket sends. -/
inductive ToWs (N E : Type) where
  | text (message : WsMessageOrResponse N E)
  | pong
  | close
deriving DecidableEq, Repr

/-! ## A connection -/

/-- The task of a subscription, with the events that the subscription has received and those that
the task has not forwarded. -/
structure ForwardTask (T N E : Type) where
  subId : N
  topics : List T
  received : List E
  waiting : List E

/-- The subscription of the task receives an event. -/
def ForwardTask.receive {T N E : Type} (t : ForwardTask T N E) (event : E) : ForwardTask T N E :=
  { t with received := t.received ++ [event], waiting := t.waiting ++ [event] }

/-- The task takes the first of its events. -/
def ForwardTask.take {T N E : Type} (t : ForwardTask T N E) : ForwardTask T N E :=
  { t with waiting := t.waiting.tail }

/-- A connection: the names of its subscriptions, its channel, every task that it has spawned, and
what it has sent. -/
structure WsContext (T N E : Type) where
  subscriptions : Table (fun subId : N => subId)
  channel : List (N × E)
  tasks : List (ForwardTask T N E)
  sent : List (ToWs N E)
  isOpen : Bool

/-- The size of the channel. -/
def channelSize : Nat := 100

inductive WsAction (T N E : Type) where
  /-- The socket receives a message; what it sends for it may fail. -/
  | fromWs (message : FromWs T N) (fails : Bool)
  /-- The connection takes what waits in its channel. -/
  | fromChannel (fails : Bool)
  /-- The subscription of a task receives an event that is published. -/
  | deliver (task : Nat) (event : E)
  /-- The subscription of a task receives an event that is read for its topics. -/
  | backfill (task : Nat) (event : E)
  /-- A task forwards an event. -/
  | forward (task : Nat)

variable {T N E : Type} [DecidableEq N] [Event E T]

namespace WsContext

/-- The start of `main_websocket`. -/
def new : WsContext T N E := ⟨Table.empty, [], [], [], true⟩

/-- Send a message, and leave the loop where this fails. -/
def send (c : WsContext T N E) (message : ToWs N E) (fails : Bool) : WsContext T N E :=
  if fails then { c with isOpen := false } else { c with sent := c.sent ++ [message] }

/-- `subscribe::handle`. -/
def handleSubscribe (c : WsContext T N E) (params : SubscriptionRequest T N) :
    Except WsError (WsResponseResult N) × WsContext T N E :=
  if params.subscriptionName ∈ c.subscriptions.rows then (.error .invalidParams, c)
  else match params.tryGetTopics with
    | .error _ => (.error .parseError, c)
    | .ok topics =>
        (.ok (.subscribe "OK" params.subscriptionName),
          { c with
            subscriptions := c.subscriptions.upsert params.subscriptionName
            tasks := c.tasks ++ [⟨params.subscriptionName, topics, [], []⟩] })

/-- `unsubscribe::handle`, which drops the handle of the task. -/
def handleUnsubscribe (c : WsContext T N E) (subId : N) :
    Except WsError (WsResponseResult N) × WsContext T N E :=
  if subId ∈ c.subscriptions.rows then
    (.ok (.unsubscribe "OK" subId),
      { c with subscriptions := c.subscriptions.delete fun other => other == subId })
  else (.error .invalidParams, c)

/-- `process`. -/
def process (c : WsContext T N E) (body : WsRequest T N) :
    WsMessageOrResponse N E × WsContext T N E :=
  let (response, c') := match body.method with
    | .subscribe sub => c.handleSubscribe sub
    | .unsubscribe unsub => c.handleUnsubscribe unsub
  (.ofResult body.id response, c')

/-- What `main_websocket` does with a message from the socket. -/
def fromWs (c : WsContext T N E) (fails : Bool) : FromWs T N → WsContext T N E
  | .request request => (c.process request).2.send (.text (c.process request).1) fails
  | .unreadable => c
  | .ping => c.send .pong fails
  | .pong => c
  | .close => { c.send .close fails with isOpen := false }
  | .error => { c with isOpen := false }

/-- What `main_websocket` does with a payload from its channel. -/
def fromChannel (c : WsContext T N E) (fails : Bool) : WsContext T N E :=
  match c.channel with
  | [] => c
  | (subId, payload) :: rest =>
      if subId ∈ c.subscriptions.rows then
        { c with channel := rest }.send (.text (.notification subId payload)) fails
      else { c with channel := rest }

/-- A task takes an event, which is lost where the channel is full or closed. -/
def forward (c : WsContext T N E) (task : Nat) : WsContext T N E :=
  match c.tasks[task]? with
  | none => c
  | some t =>
      match t.waiting with
      | [] => c
      | event :: _ =>
          let channel :=
            if c.isOpen && c.channel.length < channelSize then c.channel ++ [(t.subId, event)]
            else c.channel
          { c with
            channel := channel
            tasks := c.tasks.modify task ForwardTask.take }

/-- A step of the connection, where `fetches` tells what `fetch_events` sends for topics. -/
def step [LinearOrder T] (fetches : List T → E → Bool) (c : WsContext T N E) :
    WsAction T N E → WsContext T N E
  | .fromWs message fails => if c.isOpen then c.fromWs fails message else c
  | .fromChannel fails => if c.isOpen then c.fromChannel fails else c
  | .deliver task event =>
      match c.tasks[task]? with
      | none => c
      | some t =>
          -- the event hub sends a subscription what it has asked for
          if Subscriptions.Matches t.topics event then
            { c with tasks := c.tasks.modify task fun t => t.receive event }
          else c
  | .backfill task event =>
      match c.tasks[task]? with
      | none => c
      | some t =>
          if fetches t.topics event then
            { c with tasks := c.tasks.modify task fun t => t.receive event }
          else c
  | .forward task => c.forward task

end WsContext

/-! ## What the client is told -/

/-- Whether a client takes a name for subscribed after one more message. -/
def toldBy (subId : N) (live : Bool) : ToWs N E → Bool
  | .text (.response (.subscribe _ other) _) => live || other == subId
  | .text (.response (.unsubscribe _ other) _) => live && other != subId
  | _ => live

/-- The last response about the name says that it is subscribed. -/
def Subscribed (sent : List (ToWs N E)) (subId : N) : Prop :=
  sent.foldl (toldBy subId) false = true

/-- A task of the name has received the event. -/
def Received (tasks : List (ForwardTask T N E)) (subId : N) (event : E) : Prop :=
  ∃ t ∈ tasks, t.subId = subId ∧ event ∈ t.received

/-- Whatever stands in a list stands behind something that has a property, or is it. -/
theorem forall_split_concat {α : Type} {P : List α → α → Prop} {l : List α} {y : α}
    (h : ∀ before x after, l = before ++ x :: after → P before x) (hy : P l y) :
    ∀ before x after, l ++ [y] = before ++ x :: after → P before x := by
  intro before x after hsplit
  rcases List.eq_nil_or_concat after with rfl | ⟨after', z, rfl⟩
  · obtain ⟨rfl, hxy⟩ := List.append_inj' hsplit rfl
    cases hxy
    exact hy
  · rw [List.concat_eq_append, ← List.cons_append, ← List.append_assoc] at hsplit
    obtain ⟨rfl, -⟩ := List.append_inj' hsplit rfl
    exact h before x after' rfl

/-- The event has a topic that was asked for, or is read for the topics. -/
def MeantFor (fetches : List T → E → Bool) (topics : List T) (event : E) : Prop :=
  Subscriptions.Matches topics event ∨ fetches topics event = true

/-- What holds along every run of a connection. -/
structure Sound (fetches : List T → E → Bool) (c : WsContext T N E) : Prop where
  live : c.isOpen = true → ∀ subId, subId ∈ c.subscriptions.rows ↔ Subscribed c.sent subId
  told : ∀ before message after, c.sent = before ++ message :: after →
    ∀ subId event, message = .text (.notification subId event) →
      Subscribed before subId ∧ Received c.tasks subId event
  channel : ∀ entry ∈ c.channel, Received c.tasks entry.1 entry.2
  waiting : ∀ t ∈ c.tasks, ∀ event ∈ t.waiting, event ∈ t.received
  received : ∀ t ∈ c.tasks, ∀ event ∈ t.received, MeantFor fetches t.topics event

namespace Sound

variable {fetches : List T → E → Bool} {c c' : WsContext T N E}

theorem new : Sound fetches (WsContext.new : WsContext T N E) where
  live := fun _ subId => by simp [WsContext.new, Subscribed]
  told := fun before message after h => by simp [WsContext.new] at h
  channel := fun _ h => by cases h
  waiting := fun _ h => by cases h
  received := fun _ h => by cases h

/-- Sending a message that tells the names that are subscribed behind it. -/
theorem send (h : Sound fetches c) {message : ToWs N E} (fails : Bool)
    (hlive : ∀ subId, subId ∈ c'.subscriptions.rows ↔
      toldBy subId (c.sent.foldl (toldBy subId) false) message = true)
    (hnotification : ∀ subId event, message = .text (.notification subId event) →
      Subscribed c.sent subId ∧ Received c.tasks subId event)
    (hsent : c'.sent = c.sent) (hchannel : c'.channel ⊆ c.channel)
    (hreceived : ∀ subId event, Received c.tasks subId event → Received c'.tasks subId event)
    (hwaiting : ∀ t ∈ c'.tasks, ∀ event ∈ t.waiting, event ∈ t.received)
    (hmatches : ∀ t ∈ c'.tasks, ∀ event ∈ t.received, MeantFor fetches t.topics event) :
    Sound fetches (c'.send message fails) := by
  have htold : ∀ before message after, c.sent = before ++ message :: after →
      ∀ subId event, message = .text (.notification subId event) →
        Subscribed before subId ∧ Received c'.tasks subId event := by
    intro before message after hsplit subId event hmessage
    obtain ⟨hsub, hrec⟩ := h.told before message after hsplit subId event hmessage
    exact ⟨hsub, hreceived subId event hrec⟩
  unfold WsContext.send
  cases fails with
  | true =>
      refine ⟨fun hopen => (by cases hopen), ?_, ?_, hwaiting, hmatches⟩
      · rw [hsent]
        exact htold
      · intro entry hentry
        exact hreceived _ _ (h.channel entry (hchannel hentry))
  | false =>
      refine ⟨fun _ subId => ?_, ?_, ?_, hwaiting, hmatches⟩
      · change _ ↔ (c'.sent ++ [message]).foldl (toldBy subId) false = true
        rw [hsent, List.foldl_append]
        exact hlive subId
      · change ∀ before x after, c'.sent ++ [message] = before ++ x :: after → _
        rw [hsent]
        refine forall_split_concat htold fun subId event hmessage => ?_
        obtain ⟨hsub, hrec⟩ := hnotification subId event hmessage
        exact ⟨hsub, hreceived subId event hrec⟩
      · intro entry hentry
        exact hreceived _ _ (h.channel entry (hchannel hentry))

omit [DecidableEq N] [Event E T] in
/-- Rewriting tasks keeps what they have received. -/
theorem received_modify {tasks : List (ForwardTask T N E)} {i : Nat}
    {f : ForwardTask T N E → ForwardTask T N E}
    (hf : ∀ t, (f t).subId = t.subId ∧ t.received ⊆ (f t).received) {subId : N} {event : E}
    (h : Received tasks subId event) : Received (tasks.modify i f) subId event := by
  obtain ⟨t, ht, hid, hevent⟩ := h
  obtain ⟨j, hj⟩ := List.mem_iff_getElem?.mp ht
  by_cases hij : i = j
  · subst hij
    refine ⟨f t, List.mem_of_getElem? (i := i) ?_, (hf t).1.trans hid, (hf t).2 hevent⟩
    rw [List.getElem?_modify_eq, hj]
    rfl
  · refine ⟨t, List.mem_of_getElem? (i := j) ?_, hid, hevent⟩
    rw [List.getElem?_modify, hj]
    exact congrArg some (if_neg hij)

/-- A task behind a rewriting is an old one or the one that is rewritten. -/
theorem mem_modify {α : Type} {l : List α} {i : Nat} {f : α → α} {x : α}
    (h : x ∈ l.modify i f) : x ∈ l ∨ ∃ y, l[i]? = some y ∧ x = f y := by
  obtain ⟨j, hj⟩ := List.mem_iff_getElem?.mp h
  rw [List.getElem?_modify] at hj
  obtain ⟨y, hy, hx⟩ := Option.map_eq_some_iff.mp hj
  split at hx
  next hij => exact .inr ⟨y, hij ▸ hy, hx.symm⟩
  next => exact .inl (List.mem_of_getElem? (hx ▸ hy))

theorem request (h : Sound fetches c) (hopen : c.isOpen = true) (fails : Bool)
    (request : WsRequest T N) :
    Sound fetches (c.fromWs fails (.request request)) := by
  have hlive := h.live hopen
  have herror : ∀ e, Sound fetches (c.send (.text (.errorResponse e request.id)) fails) := by
    intro e
    refine h.send fails (fun subId => hlive subId) (fun _ _ heq => by cases heq) rfl
      (fun _ hx => hx) (fun _ _ hx => hx) h.waiting h.received
  obtain ⟨method, id⟩ := request
  cases method with
  | subscribe params =>
      simp only [WsContext.fromWs, WsContext.process, WsContext.handleSubscribe]
      split
      next => exact herror _
      next hnew =>
        split
        next => exact herror _
        next topics htopics =>
          refine h.send fails ?_ (fun _ _ heq => by cases heq) rfl (fun _ hx => hx) ?_ ?_ ?_
          · intro subId
            change _ ↔
              (c.sent.foldl (toldBy subId) false || params.subscriptionName == subId) = true
            rw [Table.mem_upsert, Bool.or_eq_true, beq_iff_eq]
            constructor
            · rintro (rfl | ⟨hmem, -⟩)
              · exact .inr rfl
              · exact .inl ((hlive subId).mp hmem)
            · rintro (hsub | rfl)
              · have hmem := (hlive subId).mpr hsub
                exact .inr ⟨hmem, fun heq => hnew (heq ▸ hmem)⟩
              · exact .inl rfl
          · rintro subId event ⟨t, ht, hid, hevent⟩
            exact ⟨t, List.mem_append_left _ ht, hid, hevent⟩
          · intro t ht event hevent
            rcases List.mem_append.mp ht with ht | ht
            · exact h.waiting t ht event hevent
            · rw [List.mem_singleton.mp ht] at hevent
              cases hevent
          · intro t ht event hevent
            rcases List.mem_append.mp ht with ht | ht
            · exact h.received t ht event hevent
            · rw [List.mem_singleton.mp ht] at hevent
              cases hevent
  | unsubscribe subId =>
      simp only [WsContext.fromWs, WsContext.process, WsContext.handleUnsubscribe]
      split
      next hmem =>
        refine h.send fails ?_ (fun _ _ heq => by cases heq) rfl (fun _ hx => hx)
          (fun _ _ hx => hx) h.waiting h.received
        intro other
        change _ ↔ (c.sent.foldl (toldBy other) false && subId != other) = true
        rw [Table.mem_delete, Bool.and_eq_true, bne_iff_ne, beq_eq_false_iff_ne, hlive other]
        exact and_congr_right fun _ => ne_comm
      next => exact herror _

/-- A message that is no answer leaves the names that are subscribed. -/
theorem send_frame (h : Sound fetches c) (hopen : c.isOpen = true) (fails : Bool)
    {message : ToWs N E}
    (hframe : message = .pong ∨ message = .close) : Sound fetches (c.send message fails) := by
  refine h.send fails (fun subId => ?_) (fun subId event heq => ?_) rfl (fun _ hx => hx)
    (fun _ _ hx => hx) h.waiting h.received
  · rw [h.live hopen subId]
    rcases hframe with rfl | rfl <;> rfl
  · rcases hframe with rfl | rfl <;> cases heq

theorem close (h : Sound fetches c) : Sound fetches { c with isOpen := false } :=
  { h with live := fun hopen => by cases hopen }

theorem fromWs (h : Sound fetches c) (hopen : c.isOpen = true) (fails : Bool)
    (message : FromWs T N) :
    Sound fetches (c.fromWs fails message) := by
  cases message with
  | request request => exact h.request hopen fails request
  | unreadable => exact h
  | ping => exact h.send_frame hopen fails (.inl rfl)
  | pong => exact h
  | close => exact (h.send_frame hopen fails (.inr rfl)).close
  | error => exact h.close

/-- Only what is forwarded under a name that is subscribed is sent on. -/
theorem fromChannel (h : Sound fetches c) (hopen : c.isOpen = true) (fails : Bool) :
    Sound fetches (c.fromChannel fails) := by
  unfold WsContext.fromChannel
  split
  next => exact h
  next subId payload rest hchannel =>
    have hrest : rest ⊆ c.channel := by
      rw [hchannel]
      exact List.subset_cons_self _ _
    split
    next hmem =>
      refine h.send fails (fun other => ?_) (fun other event heq => ?_) rfl hrest
        (fun _ _ hx => hx) h.waiting h.received
      · exact h.live hopen other
      · cases heq
        refine ⟨(h.live hopen subId).mp hmem, h.channel (subId, payload) ?_⟩
        rw [hchannel]
        exact List.mem_cons_self
    next => exact { h with channel := fun entry hentry => h.channel entry (hrest hentry) }

theorem deliver (h : Sound fetches c) {i : Nat} {t : ForwardTask T N E} (ht : c.tasks[i]? = some t)
    {event : E} (hmatches : MeantFor fetches t.topics event) :
    Sound fetches { c with tasks := c.tasks.modify i fun t => t.receive event } := by
  have hkept : ∀ subId other, Received c.tasks subId other →
      Received (c.tasks.modify i fun t => t.receive event) subId other := by
    refine fun subId other hreceived => received_modify ?_ hreceived
    intro t
    exact ⟨rfl, List.subset_append_left _ _⟩
  refine ⟨h.live, ?_, fun entry hentry => hkept _ _ (h.channel entry hentry), ?_, ?_⟩
  · intro before message after hsplit subId other hmessage
    obtain ⟨hsub, hreceived⟩ := h.told before message after hsplit subId other hmessage
    exact ⟨hsub, hkept subId other hreceived⟩
  · intro t' ht' other hother
    rcases mem_modify ht' with hmem | ⟨t₀, ht₀, rfl⟩
    · exact h.waiting t' hmem other hother
    · rcases List.mem_append.mp hother with hold | hnew
      · exact List.mem_append_left _ (h.waiting t₀ (List.mem_of_getElem? ht₀) other hold)
      · exact List.mem_append_right _ hnew
  · intro t' ht' other hother
    rcases mem_modify ht' with hmem | ⟨t₀, ht₀, rfl⟩
    · exact h.received t' hmem other hother
    · obtain rfl := Option.some.inj (ht.symm.trans ht₀)
      rcases List.mem_append.mp hother with hold | hnew
      · exact h.received t (List.mem_of_getElem? ht) other hold
      · rw [List.mem_singleton.mp hnew]
        exact hmatches

theorem forward (h : Sound fetches c) (i : Nat) : Sound fetches (c.forward i) := by
  unfold WsContext.forward
  split
  next => exact h
  next t ht =>
    split
    next => exact h
    next event rest hwaiting =>
      have hmem := List.mem_of_getElem? ht
      have hevent : event ∈ t.received := by
        refine h.waiting t hmem event ?_
        rw [hwaiting]
        exact List.mem_cons_self
      have hkept : ∀ subId other, Received c.tasks subId other →
          Received (c.tasks.modify i ForwardTask.take) subId other := by
        refine fun subId other hreceived => received_modify ?_ hreceived
        intro t
        exact ⟨rfl, fun _ hx => hx⟩
      refine ⟨h.live, ?_, ?_, ?_, ?_⟩
      · intro before message after hsplit subId other hmessage
        obtain ⟨hsub, hreceived⟩ := h.told before message after hsplit subId other hmessage
        exact ⟨hsub, hkept subId other hreceived⟩
      · intro entry hentry
        dsimp only at hentry
        split at hentry
        next =>
          rcases List.mem_append.mp hentry with hold | hnew
          · exact hkept _ _ (h.channel entry hold)
          · rw [List.mem_singleton.mp hnew]
            exact hkept _ _ ⟨t, hmem, rfl, hevent⟩
        next => exact hkept _ _ (h.channel entry hentry)
      · intro t' ht' other hother
        rcases mem_modify ht' with hmem' | ⟨t₀, ht₀, rfl⟩
        · exact h.waiting t' hmem' other hother
        · exact h.waiting t₀ (List.mem_of_getElem? ht₀) other (List.mem_of_mem_tail hother)
      · intro t' ht' other hother
        rcases mem_modify ht' with hmem' | ⟨t₀, ht₀, rfl⟩
        · exact h.received t' hmem' other hother
        · exact h.received t₀ (List.mem_of_getElem? ht₀) other hother

theorem step [LinearOrder T] (h : Sound fetches c) (a : WsAction T N E) :
    Sound fetches (c.step fetches a) := by
  cases a with
  | fromWs message fails =>
      dsimp only [WsContext.step]
      split
      next hopen => exact h.fromWs hopen fails message
      next => exact h
  | fromChannel fails =>
      dsimp only [WsContext.step]
      split
      next hopen => exact h.fromChannel hopen fails
      next => exact h
  | deliver task event =>
      dsimp only [WsContext.step]
      split
      next => exact h
      next t ht =>
        split
        next hmatches => exact h.deliver ht (.inl hmatches)
        next => exact h
  | backfill task event =>
      dsimp only [WsContext.step]
      split
      next => exact h
      next t ht =>
        split
        next hfetched => exact h.deliver ht (.inr hfetched)
        next => exact h
  | forward task => exact h.forward task

end Sound

/-! ## What is never released -/

/-- The name and the topics that a task was spawned with. -/
def ForwardTask.subscription (t : ForwardTask T N E) : N × List T := (t.subId, t.topics)

/-- The subscriptions that the event hub has of a connection, those that have a topic. -/
def WsContext.held (c : WsContext T N E) : List (N × List T) :=
  (c.tasks.map ForwardTask.subscription).filter fun subscription => !subscription.2.isEmpty

section Tasks

variable {fetches : List T → E → Bool} {c : WsContext T N E}

omit [DecidableEq N] [Event E T] in
theorem send_tasks (message : ToWs N E) (fails : Bool) :
    (c.send message fails).tasks = c.tasks := by
  unfold WsContext.send
  split <;> rfl

omit [DecidableEq N] [Event E T] in
theorem prefix_send (c : WsContext T N E) (message : ToWs N E) (fails : Bool) :
    c.tasks.map ForwardTask.subscription <+:
      (c.send message fails).tasks.map ForwardTask.subscription := by
  have hsame := congrArg (List.map ForwardTask.subscription) (send_tasks (c := c) message fails)
  exact hsame.symm ▸ List.prefix_refl (c.tasks.map ForwardTask.subscription)

omit [DecidableEq N] [Event E T] in
theorem prefix_modify {tasks : List (ForwardTask T N E)} {i : Nat}
    (f : ForwardTask T N E → ForwardTask T N E) (hf : ∀ t, (f t).subscription = t.subscription) :
    tasks.map ForwardTask.subscription <+:
      (tasks.modify i f).map ForwardTask.subscription := by
  have hsame : (tasks.modify i f).map ForwardTask.subscription =
      tasks.map ForwardTask.subscription := by
    induction tasks generalizing i with
    | nil => simp
    | cons t rest ih =>
        cases i with
        | zero => simp [hf]
        | succ i => simp [ih]
  exact hsame.symm ▸ List.prefix_refl (tasks.map ForwardTask.subscription)

omit [Event E T] in
theorem tasks_process (request : WsRequest T N) : c.tasks <+: (c.process request).2.tasks := by
  obtain ⟨method, id⟩ := request
  cases method with
  | subscribe params =>
      simp only [WsContext.process, WsContext.handleSubscribe]
      split
      next => exact List.prefix_refl _
      next =>
        split
        next => exact List.prefix_refl _
        next => exact List.prefix_append _ _
  | unsubscribe subId =>
      simp only [WsContext.process, WsContext.handleUnsubscribe]
      split <;> exact List.prefix_refl _

/-- No step ends a task that has a topic. -/
theorem tasks_step [LinearOrder T] (a : WsAction T N E) :
    c.tasks.map ForwardTask.subscription <+:
      (c.step fetches a).tasks.map ForwardTask.subscription := by
  cases a with
  | fromWs message fails =>
      dsimp only [WsContext.step]
      split
      next =>
        cases message with
        | request request =>
            dsimp only [WsContext.fromWs]
            rw [send_tasks]
            exact (tasks_process request).map _
        | ping => exact prefix_send c _ fails
        | close => exact prefix_send c _ fails
        | unreadable => exact List.prefix_refl _
        | pong => exact List.prefix_refl _
        | error => exact List.prefix_refl _
      next => exact List.prefix_refl _
  | fromChannel fails =>
      dsimp only [WsContext.step, WsContext.fromChannel]
      split
      next =>
        split
        next => exact List.prefix_refl _
        next =>
          split
          next rest _ _ => exact prefix_send { c with channel := rest } _ fails
          next => exact List.prefix_refl _
      next => exact List.prefix_refl _
  | deliver task event =>
      dsimp only [WsContext.step]
      split
      next => exact List.prefix_refl _
      next =>
        split
        next =>
          exact prefix_modify _ fun _ => rfl
        next => exact List.prefix_refl _
  | backfill task event =>
      dsimp only [WsContext.step]
      split
      next => exact List.prefix_refl _
      next =>
        split
        next =>
          exact prefix_modify _ fun _ => rfl
        next => exact List.prefix_refl _
  | forward task =>
      dsimp only [WsContext.step, WsContext.forward]
      split
      next => exact List.prefix_refl _
      next =>
        split
        next => exact List.prefix_refl _
        next =>
          exact prefix_modify _ fun _ => rfl

/-- No step gives a subscription back to the event hub. -/
theorem held_step [LinearOrder T] (a : WsAction T N E) : c.held <+: (c.step fetches a).held :=
  (tasks_step a).filter _

theorem held_run [LinearOrder T] (actions : List (WsAction T N E)) :
    c.held <+: (run (WsContext.step fetches) c actions).held := by
  induction actions generalizing c with
  | nil => exact List.prefix_refl _
  | cons a rest ih => exact (held_step a).trans ih

section Steps

variable [LinearOrder T] {subId : N} {event : E} {i : Nat}

theorem step_unsubscribe (hopen : c.isOpen = true) (hmem : subId ∈ c.subscriptions.rows)
    (id : Nat) :
    c.step fetches (.fromWs (.request ⟨.unsubscribe subId, id⟩) false) =
      { c with
        subscriptions := c.subscriptions.delete fun other => other == subId
        sent := c.sent ++ [.text (.response (.unsubscribe "OK" subId) id)] } := by
  simp only [WsContext.step, if_pos hopen, WsContext.fromWs, WsContext.process,
    WsContext.handleUnsubscribe, if_pos hmem]
  rfl

theorem step_subscribe (hopen : c.isOpen = true) {params : SubscriptionRequest T N}
    (hnew : params.subscriptionName ∉ c.subscriptions.rows) {topics : List T}
    (htopics : params.tryGetTopics = .ok topics) (id : Nat) :
    c.step fetches (.fromWs (.request ⟨.subscribe params, id⟩) false) =
      { c with
        subscriptions := c.subscriptions.upsert params.subscriptionName
        tasks := c.tasks ++ [⟨params.subscriptionName, topics, [], []⟩]
        sent := c.sent ++ [.text (.response (.subscribe "OK" params.subscriptionName) id)] } := by
  simp only [WsContext.step, if_pos hopen, WsContext.fromWs, WsContext.process,
    WsContext.handleSubscribe, if_neg hnew, htopics]
  rfl

theorem step_forward (hopen : c.isOpen = true) (hroom : c.channel.length < channelSize)
    {t : ForwardTask T N E} (ht : c.tasks[i]? = some t) {rest : List E}
    (hwaiting : t.waiting = event :: rest) :
    c.step fetches (.forward i) =
      { c with
        channel := c.channel ++ [(t.subId, event)]
        tasks := c.tasks.modify i ForwardTask.take } := by
  simp only [WsContext.step, WsContext.forward, ht, hwaiting]
  rw [hopen, decide_eq_true hroom]
  rfl

theorem step_fromChannel (fetches : List T → E → Bool) (rest : List (N × E))
    (hopen : c.isOpen = true) (hchannel : c.channel = (subId, event) :: rest)
    (hmem : subId ∈ c.subscriptions.rows) :
    c.step fetches (.fromChannel false) =
      { c with
        channel := rest
        sent := c.sent ++ [.text (.notification subId event)] } := by
  simp only [WsContext.step, if_pos hopen, WsContext.fromChannel, hchannel, if_pos hmem]
  rfl

/-- A task that has an event forwards it to a client that has subscribed to its name. -/
theorem sent_forward (event : E) (hopen : c.isOpen = true) (hchannel : c.channel = [])
    {t : ForwardTask T N E} (ht : c.tasks[i]? = some t) (hwaiting : t.waiting = [event])
    (hlive : t.subId ∈ c.subscriptions.rows) :
    (run (WsContext.step fetches) c [.forward i, .fromChannel false]).sent =
      c.sent ++ [.text (.notification t.subId event)] := by
  have hroom : c.channel.length < channelSize := by
    rw [hchannel]
    exact Nat.zero_lt_succ 99
  rw [run_cons, step_forward hopen hroom ht hwaiting, hchannel]
  refine congrArg WsContext.sent (step_fromChannel fetches [] ?_ ?_ ?_)
  · exact hopen
  · exact rfl
  · exact hlive

/-- A subscription receives an event, the client unsubscribes and subscribes under the same name,
and the task of the first subscription goes on. -/
def resubscribe (i : Nat) (event : E) (params : SubscriptionRequest T N) : List (WsAction T N E) :=
  [.deliver i event,
    .fromWs (.request ⟨.unsubscribe params.subscriptionName, 0⟩) false,
    .fromWs (.request ⟨.subscribe params, 1⟩) false,
    .forward i,
    .fromChannel false]

/-- The event is sent under the name of the second subscription, whatever that has asked for. -/
theorem resubscribe_stale (hopen : c.isOpen = true) (hchannel : c.channel = [])
    {t : ForwardTask T N E} (ht : c.tasks[i]? = some t) (hwaiting : t.waiting = [])
    {params : SubscriptionRequest T N} (hname : params.subscriptionName = t.subId)
    (hlive : t.subId ∈ c.subscriptions.rows) {topics : List T}
    (htopics : params.tryGetTopics = .ok topics) (hmatches : Subscriptions.Matches t.topics event) :
    (run (WsContext.step fetches) c (resubscribe i event params)).sent =
      c.sent ++ [.text (.response (.unsubscribe "OK" t.subId) 0),
        .text (.response (.subscribe "OK" t.subId) 1), .text (.notification t.subId event)] := by
  have hdelivered : c.step fetches (.deliver i event) =
      { c with tasks := c.tasks.modify i fun t => t.receive event } := by
    simp only [WsContext.step, ht, if_pos hmatches]
  have hunsubscribed : (c.step fetches (.deliver i event)).step fetches
      (.fromWs (.request ⟨.unsubscribe params.subscriptionName, 0⟩) false) =
      { c with
        subscriptions := c.subscriptions.delete fun other => other == t.subId
        tasks := c.tasks.modify i fun t => t.receive event
        sent := c.sent ++ [.text (.response (.unsubscribe "OK" t.subId) 0)] } := by
    rw [hdelivered, hname]
    refine step_unsubscribe ?_ ?_ 0
    · exact hopen
    · exact hlive
  have hsubscribed : ((c.step fetches (.deliver i event)).step fetches
      (.fromWs (.request ⟨.unsubscribe params.subscriptionName, 0⟩) false)).step fetches
      (.fromWs (.request ⟨.subscribe params, 1⟩) false) =
      { c with
        subscriptions := (c.subscriptions.delete fun other => other == t.subId).upsert t.subId
        tasks := (c.tasks.modify i fun t => t.receive event) ++ [⟨t.subId, topics, [], []⟩]
        sent := c.sent ++ [.text (.response (.unsubscribe "OK" t.subId) 0)] ++
          [.text (.response (.subscribe "OK" t.subId) 1)] } := by
    rw [hunsubscribed, ← hname]
    refine step_subscribe ?_ ?_ htopics 1
    · exact hopen
    · simp [Table.mem_delete]
  have hreceived : ((c.tasks.modify i fun t => t.receive event) ++
      [(⟨t.subId, topics, [], []⟩ : ForwardTask T N E)])[i]? = some (t.receive event) := by
    have hlt : i < (c.tasks.modify i fun t => t.receive event).length := by
      rw [List.length_modify]
      exact (List.getElem?_eq_some_iff.mp ht).1
    rw [List.getElem?_append_left hlt, List.getElem?_modify_eq, ht]
    rfl
  rw [resubscribe, run_cons, run_cons, run_cons, hsubscribed]
  refine (sent_forward (t := t.receive event) event ?_ ?_ ?_ ?_ ?_).trans ?_
  · exact hopen
  · exact hchannel
  · exact hreceived
  · rw [ForwardTask.receive, hwaiting]
    rfl
  · exact Table.mem_upsert.mpr (.inl rfl)
  · rw [List.append_assoc, List.append_assoc]
    rfl

end Steps

end Tasks

/-- On every run of a connection, a notification is sent only under a name that the client was last
told is subscribed, and its event was published on a topic that a subscription of that name asked
for or was read for its topics; the names of an open connection are those that the client was told.
No subscription is ever given back, so a client that uses a name again is told what it has asked for
before. -/
theorem websocket_notifications [LinearOrder T] (fetches : List T → E → Bool)
    (actions : List (WsAction T N E)) :
    (∀ before subId event after,
      (run (WsContext.step fetches) WsContext.new actions).sent =
        before ++ .text (.notification subId event) :: after →
      Subscribed before subId ∧
        ∃ t ∈ (run (WsContext.step fetches) WsContext.new actions).tasks,
          t.subId = subId ∧ MeantFor fetches t.topics event) ∧
    ((run (WsContext.step fetches) WsContext.new actions).isOpen = true → ∀ subId : N,
      subId ∈ (run (WsContext.step fetches) WsContext.new actions).subscriptions.rows ↔
        Subscribed (run (WsContext.step fetches) WsContext.new actions).sent subId) ∧
    (∀ more, (run (WsContext.step fetches) WsContext.new actions).held <+:
      (run (WsContext.step fetches) WsContext.new (actions ++ more)).held) ∧
    ∀ i t params topics event,
      (run (WsContext.step fetches) WsContext.new actions).isOpen = true →
      (run (WsContext.step fetches) WsContext.new actions).channel = [] →
      (run (WsContext.step fetches) WsContext.new actions).tasks[i]? = some t →
      t.waiting = [] → params.subscriptionName = t.subId →
      t.subId ∈ (run (WsContext.step fetches) WsContext.new actions).subscriptions.rows →
      params.tryGetTopics = .ok topics → Subscriptions.Matches t.topics event →
      (run (WsContext.step fetches) WsContext.new (actions ++ resubscribe i event params)).sent =
        (run (WsContext.step fetches) WsContext.new actions).sent ++
          [.text (.response (.unsubscribe "OK" t.subId) 0),
            .text (.response (.subscribe "OK" t.subId) 1),
            .text (.notification t.subId event)] := by
  have h : Sound fetches (run (WsContext.step fetches) WsContext.new actions) :=
    invariant_run (fun _ a h => h.step a) Sound.new actions
  refine ⟨?_, h.live, fun more => ?_, ?_⟩
  · intro before subId event after hsplit
    obtain ⟨hsub, t, ht, hid, hevent⟩ := h.told before _ after hsplit subId event rfl
    exact ⟨hsub, t, ht, hid, h.received t ht event hevent⟩
  · rw [run_append]
    exact held_run more
  · intro i t params topics event hopen hchannel ht hwaiting hname hlive htopics hmatches
    rw [run_append]
    exact resubscribe_stale hopen hchannel ht hwaiting hname hlive htopics hmatches

end Websocket

end Cdk
