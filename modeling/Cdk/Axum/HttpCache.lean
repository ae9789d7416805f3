import Cdk.Mint.CompletedSwaps
import Cdk.Nuts.KeysetId
import Mathlib.Data.List.Pairwise

/-!
# The HTTP cache in front of the swaps

An endpoint with a cache looks a request up by a hash of its JSON, hands it to
the mint when it finds nothing, and stores what the mint has answered. These
are three steps, between which other requests run. A wallet that has lost an
answer sends its swap again and again; of all its copies at most one is carried
out, and every copy that is answered with signatures is answered with those of
that one.

Left out of the requests are the DLEQ proofs of the inputs and the witnesses of
the outputs. The mint does not look at them, but they are part of the JSON:
requests that differ only in these are one request here.
-/

namespace Cdk

open Lib

/-! ## The cache -/

/-- What is sent to the endpoints with a cache. -/
inductive Payload where
  | swap (request : SwapRequest)
  | mint (request : MintRequest)
  | melt (request : MeltRequest)
deriving DecidableEq

def Payload.isSwap : Payload → Bool
  | .swap _ => true
  | _ => false

/-- What an endpoint stores. The answers to a swap and to a mint request have one JSON form, which
the answer to a melt does not have. -/
inductive CachedResponse where
  | signatures (signatures : List BlindSignature)
  | meltQuote (bytes : List UInt8)
deriving DecidableEq, Repr

abbrev HttpCacheKey := BitVec 256

/-- A cache with what it holds of each key. -/
abbrev HttpCache := HttpCacheKey → Option CachedResponse

namespace HttpCache

/-- `MAX_PAYLOAD_SIZE`. -/
def maxPayloadSize : Nat := 10 * 1024 * 1024

section Keys

variable (env : Env) (json : Payload → Option (List UInt8))

/-- `HttpCache::calculate_key`: a double hash, unless the payload is too large. -/
def calculateKey (payload : Payload) : Option HttpCacheKey :=
  match json payload with
  | none => none
  | some value =>
      if maxPayloadSize < value.length then none
      else some (env.sha256 (bytesOf 32 (env.sha256 value).toNat))

end Keys

/-- `HttpCache::get` for the answer to a swap. -/
def getSignatures (cache : HttpCache) (key : HttpCacheKey) : Option (List BlindSignature) :=
  match cache key with
  | some (.signatures signatures) => some signatures
  | _ => none

/-- `HttpCache::set`. -/
def set (cache : HttpCache) (key : HttpCacheKey) (value : CachedResponse) : HttpCache :=
  Function.update cache key (some value)

/-- An entry that has expired or has made place for another. -/
def evict (cache : HttpCache) (key : HttpCacheKey) : HttpCache := Function.update cache key none

end HttpCache

/-! ## Exchanges -/

/-- How far a request to swap has come. -/
inductive Phase where
  /-- Nothing was found in the cache. -/
  | received
  | swapping (task : SwapTask)
  /-- The mint has answered and the answer is not stored yet. -/
  | responding (signatures : List BlindSignature)
  /-- The client has signatures or an error. -/
  | answered (signatures : Option (List BlindSignature))
deriving DecidableEq

structure Exchange where
  request : SwapRequest
  phase : Phase
deriving DecidableEq

/-- What a client gets from an exchange that the process ends with. -/
def Exchange.abort (exchange : Exchange) : Exchange :=
  match exchange.phase with
  | .answered _ => exchange
  | _ => { exchange with phase := .answered none }

/-- A swap that the mint has carried out. -/
structure Completion where
  request : SwapRequest
  setup : SwapSetup
  signatures : List BlindSignature
deriving DecidableEq

/-- A mint behind its endpoints. Two logs record what has been sent and which swaps the mint has
carried out. -/
structure Front where
  mint : World
  cache : HttpCache
  exchanges : List Exchange
  sent : List Payload
  completed : List Completion

def Front.init (keysets : Keysets) : Front := ⟨World.init keysets, fun _ => none, [], [], []⟩

inductive FrontAction where
  | receive (request : SwapRequest)
  /-- The authentication or a check before the first transaction fails. -/
  | reject (exchange : Nat)
  | setup (exchange : Nat) (now : Nat)
  | sign (exchange : Nat) (fails : Bool)
  | finalize (exchange : Nat) (fault : Fault)
  | store (exchange : Nat)
  /-- Another endpoint stores what it has answered. -/
  | storeOther (payload : Payload) (response : CachedResponse)
  | evict (key : HttpCacheKey)
  /-- A step of the mint that is not taken for one of the exchanges. -/
  | mint (action : Action)
  | restart (check : PaymentIdentifier → Option MeltQuoteState) (keepCache : Bool)

/-- The steps of the mint that belong to an exchange or end all of them. -/
def Action.ofExchange : Action → Bool
  | .restart _ => true
  | a => a.ofSwap

namespace Front

variable (env : Env) (backends : Backends) (json : Payload → Option (List UInt8)) (f : Front)

/-- Move an exchange to another phase. -/
def move (exchange : Nat) (request : SwapRequest) (phase : Phase) : Front :=
  { f with exchanges := f.exchanges.set exchange ⟨request, phase⟩ }

/-- The start of `cache_post_swap`, which looks for an answer before it authenticates. -/
def receive (request : SwapRequest) : Front :=
  let found := (HttpCache.calculateKey env json (.swap request)).bind f.cache.getSignatures
  let phase : Phase :=
    match found with
    | some signatures => .answered (some signatures)
    | none => .received
  { f with
    exchanges := f.exchanges ++ [⟨request, phase⟩]
    sent := f.sent ++ [.swap request] }

/-- The first transaction of `process_swap_request`. -/
def setup (exchange : Nat) (request : SwapRequest) (now : Nat) : Front :=
  let mint := f.mint.step env backends (.setupSwap now request)
  match startSwap env f.mint.keysets now f.mint.nextId request f.mint.db with
  | .ok (setup, _) =>
      { f.move exchange request (.swapping ⟨setup, none⟩) with mint := mint }
  | _ => { f.move exchange request (.answered none) with mint := mint }

def sign (exchange : Nat) (request : SwapRequest) (task : SwapTask) (fails : Bool) : Front :=
  let mint := f.mint.step env backends (.signSwap task fails)
  match fails, blindSign env f.mint.keysets task.setup.blindedMessages with
  | false, .ok signatures =>
      { f.move exchange request (.swapping { task with signatures := some signatures }) with
        mint := mint }
  | _, _ => { f.move exchange request (.answered none) with mint := mint }

/-- The second transaction; the swap has been carried out where the mint has recorded it. -/
def finalize (exchange : Nat) (request : SwapRequest) (setup : SwapSetup)
    (signatures : List BlindSignature) (fault : Fault) : Front :=
  let mint := f.mint.step env backends (.finalizeSwap ⟨setup, some signatures⟩ fault)
  if mint.finalized = f.mint.finalized then
    { f.move exchange request (.answered none) with mint := mint }
  else
    { f.move exchange request (.responding signatures) with
      mint := mint
      completed := f.completed ++ [⟨request, setup, signatures⟩] }

/-- The end of `cache_post_swap`. -/
def store (exchange : Nat) (request : SwapRequest) (signatures : List BlindSignature) : Front :=
  let cache :=
    match HttpCache.calculateKey env json (.swap request) with
    | some key => f.cache.set key (.signatures signatures)
    | none => f.cache
  { f.move exchange request (.answered (some signatures)) with cache := cache }

/-- Another endpoint than that of the swaps stores an answer. -/
def storeOther (payload : Payload) (response : CachedResponse) : Front :=
  match HttpCache.calculateKey env json payload with
  | some key =>
      if payload.isSwap then f
      else { f with cache := f.cache.set key response, sent := f.sent ++ [payload] }
  | none => f

/-- The memory of the process is lost; the cache may be outside of it. -/
def restart (check : PaymentIdentifier → Option MeltQuoteState) (keepCache : Bool) : Front :=
  { f with
    mint := f.mint.step env backends (.restart check)
    cache := if keepCache then f.cache else fun _ => none
    exchanges := f.exchanges.map Exchange.abort }

def step : FrontAction → Front
  | .receive request => f.receive env json request
  | .reject exchange =>
      match f.exchanges[exchange]? with
      | some ⟨request, .received⟩ => f.move exchange request (.answered none)
      | _ => f
  | .setup exchange now =>
      match f.exchanges[exchange]? with
      | some ⟨request, .received⟩ => f.setup env backends exchange request now
      | _ => f
  | .sign exchange fails =>
      match f.exchanges[exchange]? with
      | some ⟨request, .swapping ⟨setup, none⟩⟩ =>
          f.sign env backends exchange request ⟨setup, none⟩ fails
      | _ => f
  | .finalize exchange fault =>
      match f.exchanges[exchange]? with
      | some ⟨request, .swapping ⟨setup, some signatures⟩⟩ =>
          f.finalize env backends exchange request setup signatures fault
      | _ => f
  | .store exchange =>
      match f.exchanges[exchange]? with
      | some ⟨request, .responding signatures⟩ => f.store env json exchange request signatures
      | _ => f
  | .storeOther payload response => f.storeOther env json payload response
  | .evict key => { f with cache := f.cache.evict key }
  | .mint action =>
      if action.ofExchange then f else { f with mint := f.mint.step env backends action }
  | .restart check keepCache => f.restart env backends check keepCache

/-- The state that a new mint reaches behind its endpoints. -/
def reached (keysets : Keysets) (actions : List FrontAction) : Front :=
  run (step env backends json) (init keysets) actions

end Front

/-! ## What an answer stands for -/

/-- A swap has been set up for a request. -/
structure SetupOf (env : Env) (request : SwapRequest) (setup : SwapSetup) : Prop where
  outputs : setup.blindedMessages = request.outputs
  ys : List.Forall₂ (fun p y => p.y env = some y) request.inputs setup.ys

section Answers

variable (env : Env) (json : Payload → Option (List UInt8))

/-- Payloads that are equal or that the cache does not tell apart. -/
def SameEntry (payload payload' : Payload) : Prop :=
  payload = payload' ∨ ∃ key, HttpCache.calculateKey env json payload = some key ∧
    HttpCache.calculateKey env json payload' = some key

/-- The answer to a payload, which is that of a completed swap if the payload is a swap. -/
def AnswerTo (completed : List Completion) (payload : Payload)
    (signatures : List BlindSignature) : Prop :=
  ∀ request, payload = .swap request →
    ∃ c ∈ completed, c.request = request ∧ c.signatures = signatures

/-- Signatures that an exchange may be answered with. -/
def Front.Answer (f : Front) (request : SwapRequest) (signatures : List BlindSignature) : Prop :=
  ∃ payload ∈ f.sent, SameEntry env json payload (.swap request) ∧
    AnswerTo f.completed payload signatures

/-- What holds of every exchange in its phase. -/
def Front.PhaseSound (f : Front) (request : SwapRequest) : Phase → Prop
  | .received => True
  | .swapping task => SetupOf env request task.setup ∧
      ∀ signatures, task.signatures = some signatures →
        List.Forall₂ (Signs env) request.outputs signatures
  | .responding signatures => AnswerTo f.completed (.swap request) signatures
  | .answered none => True
  | .answered (some signatures) => f.Answer env json request signatures

/-- The invariant of a mint behind its endpoints. -/
structure Front.Sound (backends : Backends) (keysets : Keysets) (f : Front) : Prop where
  reachable : ∃ actions, f.mint = World.reached env backends keysets actions
  finalized : f.mint.finalized = f.completed.map Completion.setup
  completed : ∀ c ∈ f.completed, SetupOf env c.request c.setup ∧
    List.Forall₂ (Signs env) c.request.outputs c.signatures
  exchanges : ∀ e ∈ f.exchanges, .swap e.request ∈ f.sent ∧ f.PhaseSound env json e.request e.phase
  cached : ∀ key signatures, f.cache key = some (.signatures signatures) →
    ∃ payload ∈ f.sent, HttpCache.calculateKey env json payload = some key ∧
      AnswerTo f.completed payload signatures

end Answers

/-- A point of a request is one of its setup. -/
theorem SetupOf.exists_y {env : Env} {request : SwapRequest} {setup : SwapSetup}
    (h : SetupOf env request setup) {p : Proof} (hp : p ∈ request.inputs) :
    ∃ y ∈ setup.ys, p.y env = some y := by
  obtain ⟨i, hi, rfl⟩ := List.getElem_of_mem hp
  have hlength : i < setup.ys.length := h.ys.length_eq ▸ hi
  exact ⟨setup.ys[i], List.getElem_mem hlength, List.Forall₂.get h.ys hi hlength⟩

theorem AnswerTo.mono {completed completed' : List Completion} (h : completed ⊆ completed')
    {payload : Payload} {signatures : List BlindSignature}
    (hanswer : AnswerTo completed payload signatures) :
    AnswerTo completed' payload signatures := by
  intro request hrequest
  obtain ⟨c, hc, hmatch⟩ := hanswer request hrequest
  exact ⟨c, h hc, hmatch⟩

namespace Front

variable {env : Env} {backends : Backends} {json : Payload → Option (List UInt8)}
variable {keysets : Keysets} {f f' : Front}

theorem setupOf_startSwap {now : Nat} {operationId : Uuid} {request : SwapRequest} {db db' : Db}
    {setup : SwapSetup} (h : startSwap env keysets now operationId request db = .ok (setup, db')) :
    SetupOf env request setup := by
  obtain ⟨-, rows, hres⟩ := startSwap_ok h
  refine ⟨hres.messages, ?_⟩
  rw [← hres.ys, List.forall₂_map_right_iff]
  exact hres.reserved.inputs.imp fun _ _ hrow => hrow.1

/-! ### What grows -/

/-- The logs of one state are part of those of another. -/
structure LogsGrow (f f' : Front) : Prop where
  sent : f.sent ⊆ f'.sent
  completed : f.completed ⊆ f'.completed

theorem PhaseSound.mono (h : LogsGrow f f') {request : SwapRequest} {phase : Phase}
    (hphase : f.PhaseSound env json request phase) : f'.PhaseSound env json request phase := by
  cases phase with
  | received => trivial
  | swapping task => exact hphase
  | responding signatures => exact AnswerTo.mono h.completed hphase
  | answered signatures =>
      cases signatures with
      | none => trivial
      | some signatures =>
          obtain ⟨payload, hpayload, hsame, hanswer⟩ := hphase
          exact ⟨payload, h.sent hpayload, hsame, hanswer.mono h.completed⟩

/-- One exchange moves, to a phase that is sound, and the rest of the state is kept in step. -/
theorem Sound.move (h : Sound env json backends keysets f) {exchange : Nat} {request : SwapRequest}
    {old phase : Phase} (hat : f.exchanges[exchange]? = some ⟨request, old⟩)
    (hgrow : LogsGrow f f')
    (hexchanges : f'.exchanges = f.exchanges.set exchange ⟨request, phase⟩)
    (hphase : f'.PhaseSound env json request phase) :
    ∀ e ∈ f'.exchanges, .swap e.request ∈ f'.sent ∧ f'.PhaseSound env json e.request e.phase := by
  intro e he
  rw [hexchanges] at he
  rcases List.mem_or_eq_of_mem_set he with hold | rfl
  · exact (h.exchanges e hold).imp (fun hs => hgrow.sent hs) (PhaseSound.mono hgrow)
  · exact ⟨hgrow.sent (h.exchanges _ (List.mem_of_getElem? hat)).1, hphase⟩

/-! ### Steps -/

theorem LogsGrow.of_eq (hsent : f'.sent = f.sent) (hcompleted : f'.completed = f.completed) :
    LogsGrow f f' :=
  ⟨fun _ hp => hsent ▸ hp, fun _ hc => hcompleted ▸ hc⟩

theorem reachable_step (h : ∃ actions, f.mint = World.reached env backends keysets actions)
    (a : Action) : ∃ actions, f.mint.step env backends a =
      World.reached env backends keysets actions := by
  obtain ⟨actions, hmint⟩ := h
  refine ⟨actions ++ [a], ?_⟩
  rw [World.reached, run_append, run_cons, run_nil, hmint]
  rfl

theorem setupSwap_finalized (w : World) (now : Nat) (request : SwapRequest) :
    (w.step env backends (.setupSwap now request)).finalized = w.finalized := by
  simp only [World.step, World.setupSwap]
  split <;> rfl

theorem signSwap_finalized (w : World) (task : SwapTask) (fails : Bool) :
    (w.step env backends (.signSwap task fails)).finalized = w.finalized := by
  simp only [World.step]
  split
  next =>
    unfold World.signSwap
    split <;> rfl
  next => rfl

theorem finalizeSwap_finalized (w : World) (task : SwapTask) (fault : Fault) :
    (w.step env backends (.finalizeSwap task fault)).finalized = w.finalized ∨
      (w.step env backends (.finalizeSwap task fault)).finalized =
        w.finalized ++ [task.setup] := by
  simp only [World.step]
  split
  next signatures _ =>
    split
    next =>
      unfold World.finalizeSwap
      split
      next => exact .inl rfl
      next =>
        split
        next => exact .inl rfl
        next => exact .inl rfl
        next =>
          split
          next => exact .inl rfl
          next => exact .inr rfl
    next => exact .inl rfl
  next => exact .inl rfl

theorem Sound.init (env : Env) (backends : Backends) (json : Payload → Option (List UInt8))
    (keysets : Keysets) : Sound env json backends keysets (Front.init keysets) where
  reachable := ⟨[], rfl⟩
  finalized := rfl
  completed _ hc := absurd hc List.not_mem_nil
  exchanges _ he := absurd he List.not_mem_nil
  cached key signatures h := by cases h

/-- A step of the mint that completes no swap, after which an exchange has a sound phase. -/
theorem Sound.of_move (h : Sound env json backends keysets f) {exchange : Nat}
    {request : SwapRequest} {old phase : Phase}
    (hat : f.exchanges[exchange]? = some ⟨request, old⟩) {mint : World}
    (hreachable : ∃ actions, mint = World.reached env backends keysets actions)
    (hfinalized : mint.finalized = f.mint.finalized)
    (hphase : f.PhaseSound env json request phase) :
    Sound env json backends keysets { f.move exchange request phase with mint := mint } where
  reachable := hreachable
  finalized := hfinalized.trans h.finalized
  completed := h.completed
  exchanges := h.move hat (.of_eq rfl rfl) rfl (hphase.mono (.of_eq rfl rfl))
  cached := h.cached

theorem Sound.receive (h : Sound env json backends keysets f) (request : SwapRequest) :
    Sound env json backends keysets (f.receive env json request) := by
  have hgrow : LogsGrow f (f.receive env json request) :=
    ⟨List.subset_append_left _ _, List.Subset.refl _⟩
  refine ⟨h.reachable, h.finalized, h.completed, fun e he => ?_, fun key signatures hkey => ?_⟩
  · rcases List.mem_append.mp he with hold | hnew
    · exact (h.exchanges e hold).imp (fun hs => hgrow.sent hs) (PhaseSound.mono hgrow)
    · rw [List.mem_singleton.mp hnew]
      refine ⟨List.mem_append_right _ (List.mem_singleton_self _), ?_⟩
      dsimp only
      split
      next signatures hfound =>
        obtain ⟨key, hkey, hget⟩ := Option.bind_eq_some_iff.mp hfound
        unfold HttpCache.getSignatures at hget
        split at hget
        next hentry =>
          rw [Option.some.inj hget] at hentry
          obtain ⟨payload, hpayload, hsame, hanswer⟩ := h.cached key signatures hentry
          exact ⟨payload, hgrow.sent hpayload, .inr ⟨key, hsame, hkey⟩, hanswer⟩
        next => cases hget
      next => trivial
  · obtain ⟨payload, hpayload, hsame⟩ := h.cached key signatures hkey
    exact ⟨payload, hgrow.sent hpayload, hsame⟩

theorem Sound.setup (h : Sound env json backends keysets f) {exchange : Nat}
    {request : SwapRequest} {old : Phase} (hat : f.exchanges[exchange]? = some ⟨request, old⟩)
    (now : Nat) : Sound env json backends keysets (f.setup env backends exchange request now) := by
  unfold Front.setup
  have hfinalized : (f.mint.step env backends (.setupSwap now request)).finalized =
      f.mint.finalized := setupSwap_finalized f.mint now request
  split
  next setup _ hstart =>
    refine h.of_move hat (reachable_step h.reachable _) hfinalized ⟨setupOf_startSwap hstart, ?_⟩
    intro signatures hnone
    cases hnone
  next => exact h.of_move hat (reachable_step h.reachable _) hfinalized trivial

theorem Sound.sign (h : Sound env json backends keysets f) {exchange : Nat}
    {request : SwapRequest} {task : SwapTask}
    (hat : f.exchanges[exchange]? = some ⟨request, .swapping task⟩) (fails : Bool) :
    Sound env json backends keysets (f.sign env backends exchange request task fails) := by
  unfold Front.sign
  have hfinalized : (f.mint.step env backends (.signSwap task fails)).finalized =
      f.mint.finalized := signSwap_finalized f.mint task fails
  have htask := (h.exchanges _ (List.mem_of_getElem? hat)).2
  split
  next signatures hsign =>
    refine h.of_move hat (reachable_step h.reachable _) hfinalized ⟨htask.1, ?_⟩
    intro signatures' heq
    rw [← Option.some.inj heq, ← htask.1.outputs]
    exact blindSign_signs hsign
  next => exact h.of_move hat (reachable_step h.reachable _) hfinalized trivial

theorem Sound.finalize (h : Sound env json backends keysets f) {exchange : Nat}
    {request : SwapRequest} {setup : SwapSetup} {signatures : List BlindSignature}
    (hat : f.exchanges[exchange]? = some ⟨request, .swapping ⟨setup, some signatures⟩⟩)
    (fault : Fault) : Sound env json backends keysets
      (f.finalize env backends exchange request setup signatures fault) := by
  unfold Front.finalize
  dsimp only
  have htask := (h.exchanges _ (List.mem_of_getElem? hat)).2
  split
  next hsame => exact h.of_move hat (reachable_step h.reachable _) hsame trivial
  next hdone =>
    have hfinalized := (finalizeSwap_finalized f.mint ⟨setup, some signatures⟩ fault).resolve_left
      hdone
    have hgrow : f.completed ⊆ f.completed ++ [⟨request, setup, signatures⟩] :=
      List.subset_append_left _ _
    have hnew : (⟨request, setup, signatures⟩ : Completion) ∈
        f.completed ++ [⟨request, setup, signatures⟩] :=
      List.mem_append_right _ (List.mem_singleton_self _)
    refine ⟨reachable_step h.reachable (.finalizeSwap ⟨setup, some signatures⟩ fault), ?_, ?_, ?_,
      ?_⟩
    · rw [hfinalized, h.finalized, List.map_append, List.map_singleton]
    · intro c hc
      rcases List.mem_append.mp hc with hold | hlast
      · exact h.completed c hold
      · rw [List.mem_singleton.mp hlast]
        exact ⟨htask.1, htask.2 signatures rfl⟩
    · refine h.move hat ⟨List.Subset.refl _, hgrow⟩ rfl ?_
      intro request' heq
      exact ⟨_, hnew, Payload.swap.inj heq, rfl⟩
    · intro key cached hkey
      obtain ⟨payload, hpayload, hsame, hanswer⟩ := h.cached key cached hkey
      exact ⟨payload, hpayload, hsame, hanswer.mono hgrow⟩

theorem Sound.store (h : Sound env json backends keysets f) {exchange : Nat}
    {request : SwapRequest} {signatures : List BlindSignature}
    (hat : f.exchanges[exchange]? = some ⟨request, .responding signatures⟩) :
    Sound env json backends keysets (f.store env json exchange request signatures) := by
  obtain ⟨hsent, hanswer⟩ := h.exchanges _ (List.mem_of_getElem? hat)
  have hmoved : Sound env json backends keysets
      (f.move exchange request (.answered (some signatures))) :=
    h.of_move hat h.reachable rfl ⟨_, hsent, .inl rfl, hanswer⟩
  refine ⟨hmoved.reachable, hmoved.finalized, hmoved.completed, hmoved.exchanges, ?_⟩
  intro key cached hkey
  unfold Front.store at hkey ⊢
  cases hcalc : HttpCache.calculateKey env json (.swap request) with
  | none =>
      rw [hcalc] at hkey
      exact h.cached key cached hkey
  | some own =>
      rw [hcalc] at hkey
      by_cases hown : key = own
      · subst hown
        simp only [HttpCache.set, Function.update_self, Option.some.injEq,
          CachedResponse.signatures.injEq] at hkey
        subst hkey
        exact ⟨_, hsent, hcalc, hanswer⟩
      · simp only [HttpCache.set, Function.update_of_ne hown] at hkey
        exact h.cached key cached hkey

/-- What another endpoint stores is no answer to a swap. -/
theorem Sound.storeOther (h : Sound env json backends keysets f) (payload : Payload)
    (response : CachedResponse) :
    Sound env json backends keysets (f.storeOther env json payload response) := by
  unfold Front.storeOther
  split
  next key hcalc =>
    split
    next => exact h
    next hother =>
      have hgrow : LogsGrow f { f with
          cache := f.cache.set key response, sent := f.sent ++ [payload] } :=
        ⟨List.subset_append_left _ _, List.Subset.refl _⟩
      refine ⟨h.reachable, h.finalized, h.completed, fun e he => ?_, fun key' cached hkey => ?_⟩
      · exact (h.exchanges e he).imp (fun hs => hgrow.sent hs) (PhaseSound.mono hgrow)
      · by_cases hown : key' = key
        · subst hown
          refine ⟨payload, List.mem_append_right _ (List.mem_singleton_self _), hcalc, ?_⟩
          rintro request rfl
          exact absurd rfl hother
        · simp only [HttpCache.set, Function.update_of_ne hown] at hkey
          obtain ⟨other, hmem, hsame⟩ := h.cached key' cached hkey
          exact ⟨other, hgrow.sent hmem, hsame⟩
  next => exact h

theorem Sound.restart (h : Sound env json backends keysets f)
    (check : PaymentIdentifier → Option MeltQuoteState) (keepCache : Bool) :
    Sound env json backends keysets (f.restart env backends check keepCache) where
  reachable := reachable_step h.reachable (.restart check)
  finalized := (f.mint.step_swaps env backends rfl).2.trans h.finalized
  completed := h.completed
  exchanges e he := by
    obtain ⟨old, hold, rfl⟩ := List.mem_map.mp he
    obtain ⟨hsent, hphase⟩ := h.exchanges old hold
    unfold Exchange.abort
    split
    next => exact ⟨hsent, hphase.mono (.of_eq rfl rfl)⟩
    next => exact ⟨hsent, trivial⟩
  cached key signatures hkey := by
    cases keepCache with
    | true => exact h.cached key signatures hkey
    | false => cases hkey

theorem Sound.step (h : Sound env json backends keysets f) (a : FrontAction) :
    Sound env json backends keysets (f.step env backends json a) := by
  cases a with
  | receive request => exact h.receive request
  | reject exchange =>
      simp only [Front.step]
      split
      next hat => exact h.of_move hat h.reachable rfl trivial
      next => exact h
  | setup exchange now =>
      simp only [Front.step]
      split
      next hat => exact h.setup hat now
      next => exact h
  | sign exchange fails =>
      simp only [Front.step]
      split
      next hat => exact h.sign hat fails
      next => exact h
  | finalize exchange fault =>
      simp only [Front.step]
      split
      next hat => exact h.finalize hat fault
      next => exact h
  | store exchange =>
      simp only [Front.step]
      split
      next hat => exact h.store hat
      next => exact h
  | storeOther payload response => exact h.storeOther payload response
  | evict key =>
      refine ⟨h.reachable, h.finalized, h.completed, h.exchanges, fun key' signatures hkey => ?_⟩
      by_cases hown : key' = key
      · subst hown
        simp [Front.step, HttpCache.evict] at hkey
      · simp only [Front.step, HttpCache.evict, Function.update_of_ne hown] at hkey
        exact h.cached key' signatures hkey
  | mint action =>
      simp only [Front.step]
      split
      next => exact h
      next hnot =>
        have hswap : action.ofSwap = false := by
          cases action <;> first | rfl | exact absurd rfl hnot
        exact ⟨reachable_step h.reachable _,
          (f.mint.step_swaps env backends hswap).2.trans h.finalized, h.completed, h.exchanges,
          h.cached⟩
  | restart check keepCache => exact h.restart check keepCache

theorem sound_run (keysets : Keysets) (actions : List FrontAction) :
    Sound env json backends keysets (reached env backends json keysets actions) :=
  invariant_run (fun _ a h => h.step a) (Sound.init env backends json keysets) actions

/-! ## Copies of one swap -/

/-- The cache tells the payloads apart that its endpoints have been sent. -/
def KeysDistinct (env : Env) (json : Payload → Option (List UInt8)) (f : Front) : Prop :=
  ∀ payload ∈ f.sent, ∀ payload' ∈ f.sent, ∀ key,
    HttpCache.calculateKey env json payload = some key →
      HttpCache.calculateKey env json payload' = some key → payload = payload'

/-- Signatures that a client has are those of a completed swap of its request. -/
theorem Sound.completion (h : Sound env json backends keysets f) (hkeys : KeysDistinct env json f)
    {e : Exchange} (he : e ∈ f.exchanges) {signatures : List BlindSignature}
    (hanswered : e.phase = .answered (some signatures)) :
    ∃ c ∈ f.completed, c.request = e.request ∧ c.signatures = signatures := by
  obtain ⟨hsent, hphase⟩ := h.exchanges e he
  rw [hanswered] at hphase
  obtain ⟨payload, hpayload, hsame, hanswer⟩ := hphase
  refine hanswer e.request ?_
  rcases hsame with heq | ⟨key, hkey, hkey'⟩
  · exact heq
  · exact hkeys payload hpayload _ hsent key hkey hkey'

/-- Completed swaps that share a point are one. -/
theorem Sound.completed_unique (h : Sound env json backends keysets f) {c c' : Completion}
    (hc : c ∈ f.completed) (hc' : c' ∈ f.completed) {y : PublicKey} (hy : y ∈ c.setup.ys)
    (hy' : y ∈ c'.setup.ys) : c = c' := by
  obtain ⟨actions, hmint⟩ := h.reachable
  have hspent : SwapsSpent (World.reached env backends keysets actions) :=
    swapsSpent_run keysets actions
  have hnodup := hspent.distinct
  rw [← hmint, h.finalized, List.flatMap_map] at hnodup
  have hpairs := (List.nodup_flatMap.mp hnodup).2
  by_contra hne
  have hsymm : Std.Symm (Function.onFun List.Disjoint fun c : Completion => c.setup.ys) :=
    ⟨fun _ _ hdisjoint => hdisjoint.symm⟩
  exact hpairs.forall hc hc' hne hy hy'

end Front

/-- In every run of a mint behind its endpoints, whatever is lost, evicted, sent again or restarted:
two requests that are answered with signatures and share a secret are the same request and have the
same signatures, which are good signatures on its outputs, and the mint has burnt the secret in
exactly one completed swap. The cache must tell the payloads apart that it has been sent. -/
theorem swap_copies_agree (env : Env) (backends : Backends) (json : Payload → Option (List UInt8))
    (keysets : Keysets) (actions : List FrontAction)
    (hkeys : Front.KeysDistinct env json (Front.reached env backends json keysets actions))
    (e e' : Exchange) (he : e ∈ (Front.reached env backends json keysets actions).exchanges)
    (he' : e' ∈ (Front.reached env backends json keysets actions).exchanges)
    (signatures signatures' : List BlindSignature)
    (hanswered : e.phase = .answered (some signatures))
    (hanswered' : e'.phase = .answered (some signatures'))
    (p p' : Proof) (hp : p ∈ e.request.inputs) (hp' : p' ∈ e'.request.inputs)
    (hsecret : p.secret = p'.secret) :
    e.request = e'.request ∧ signatures = signatures' ∧
      List.Forall₂ (Signs env) e.request.outputs signatures ∧
      ∃ y, p.y env = some y ∧
        ((Front.reached env backends json keysets actions).mint.finalized.flatMap
          SwapSetup.ys).count y = 1 := by
  have h : Front.Sound env json backends keysets
      (Front.reached env backends json keysets actions) :=
    Front.sound_run keysets actions
  obtain ⟨c, hc, hrequest, rfl⟩ := h.completion hkeys he hanswered
  obtain ⟨c', hc', hrequest', rfl⟩ := h.completion hkeys he' hanswered'
  obtain ⟨y, hy, hkey⟩ := (h.completed c hc).1.exists_y (hrequest ▸ hp)
  obtain ⟨y', hy', hkey'⟩ := (h.completed c' hc').1.exists_y (hrequest' ▸ hp')
  have hsame : y = y' := by
    rw [Proof.y, hsecret] at hkey
    exact Option.some.inj (hkey.symm.trans hkey')
  subst hsame
  obtain rfl := h.completed_unique hc hc' hy hy'
  refine ⟨hrequest.symm.trans hrequest', rfl, hrequest ▸ (h.completed c hc).2, y, hkey, ?_⟩
  obtain ⟨reaching, hmint⟩ := h.reachable
  have hspent : SwapsSpent (World.reached env backends keysets reaching) :=
    swapsSpent_run keysets reaching
  have hnodup := hspent.distinct
  rw [← hmint] at hnodup
  refine List.count_eq_one_of_mem hnodup (List.mem_flatMap.mpr ⟨c.setup, ?_, hy⟩)
  rw [h.finalized]
  exact List.mem_map_of_mem hc

/-! ## An example -/

/-- The JSON of a swap of eight. -/
def sampleSwapJson (secret point : String) : String :=
  "\x7b\"inputs\":[\x7b\"amount\":8,\"id\":\"0000000000000001\",\"secret\":\"" ++ secret ++
    "\",\"C\":\"02" ++ "00000000000000000000000000000000" ++ "00000000000000000000000000000000" ++
    "\"\x7d],\"outputs\":[\x7b\"amount\":8,\"id\":\"0000000000000001\",\"B_\":\"02" ++
    "00000000000000000000000000000000" ++ "0000000000000000000000000000000" ++ point ++
    "\"\x7d]\x7d"

/-- A swap of another proof. -/
def secondSwap : SwapRequest := ⟨[sampleProof 8 "b"], [sampleMessage 8 6]⟩

def sampleJson (payload : Payload) : Option (List UInt8) :=
  if payload = .swap sampleSwap then some (utf8 (sampleSwapJson "a" "5"))
  else if payload = .swap secondSwap then some (utf8 (sampleSwapJson "b" "6"))
  else none

/-- A hash that depends on all bytes. -/
def hashingEnv : Env :=
  { sampleEnv with
    sha256 := fun bytes => BitVec.ofNat 256 (bytes.foldl (fun n b => n * 31 + b.toNat) 7) }

/-- Two copies arrive before the first has an answer, a third arrives after, and the other swap
arrives twice between them. -/
def sampleCopies : List FrontAction :=
  [.receive sampleSwap, .receive secondSwap, .receive sampleSwap, .setup 0 0, .setup 2 0,
    .sign 0 false, .finalize 0 none, .store 0, .receive sampleSwap, .setup 1 0, .sign 1 false,
    .finalize 1 none, .store 1, .receive secondSwap]

def sampleAnswer : Exchange := ⟨sampleSwap, .answered (some [⟨8, .v1 1, ⟨false, 6⟩⟩])⟩

def secondAnswer : Exchange := ⟨secondSwap, .answered (some [⟨8, .v1 1, ⟨false, 7⟩⟩])⟩

theorem sampleCopies_exchanges :
    (Front.reached hashingEnv (fun _ _ => true) sampleJson [sampleKeyset] sampleCopies).exchanges =
      [sampleAnswer, secondAnswer, ⟨sampleSwap, .answered none⟩, sampleAnswer, secondAnswer] := by
  decide +kernel

theorem sampleCopies_keysDistinct : Front.KeysDistinct hashingEnv sampleJson
    (Front.reached hashingEnv (fun _ _ => true) sampleJson [sampleKeyset] sampleCopies) := by
  have hsent : (Front.reached hashingEnv (fun _ _ => true) sampleJson [sampleKeyset]
      sampleCopies).sent = [.swap sampleSwap, .swap secondSwap, .swap sampleSwap,
        .swap sampleSwap, .swap secondSwap] := by
    decide +kernel
  have hkeys : ∀ payload ∈ [Payload.swap sampleSwap, .swap secondSwap],
      ∀ payload' ∈ [Payload.swap sampleSwap, .swap secondSwap],
        HttpCache.calculateKey hashingEnv sampleJson payload =
          HttpCache.calculateKey hashingEnv sampleJson payload' → payload = payload' := by
    decide +kernel
  have htwo : ∀ payload ∈ [Payload.swap sampleSwap, .swap secondSwap, .swap sampleSwap,
      .swap sampleSwap, .swap secondSwap],
        payload ∈ [Payload.swap sampleSwap, .swap secondSwap] := by
    simp
  intro payload hpayload payload' hpayload' key hkey hkey'
  rw [hsent] at hpayload hpayload'
  exact hkeys payload (htwo payload hpayload) payload' (htwo payload' hpayload')
    (hkey.trans hkey'.symm)

/-- The second copy is refused, and the third is answered as the first. -/
theorem swap_copies_agree_sample :
    (Front.reached hashingEnv (fun _ _ => true) sampleJson [sampleKeyset]
        sampleCopies).exchanges =
      [sampleAnswer, secondAnswer, ⟨sampleSwap, .answered none⟩, sampleAnswer, secondAnswer] ∧
      List.Forall₂ (Signs hashingEnv) sampleSwap.outputs [⟨8, .v1 1, ⟨false, 6⟩⟩] ∧
      List.Forall₂ (Signs hashingEnv) secondSwap.outputs [⟨8, .v1 1, ⟨false, 7⟩⟩] := by
  have hfirst : sampleAnswer ∈ (Front.reached hashingEnv (fun _ _ => true) sampleJson
      [sampleKeyset] sampleCopies).exchanges := by
    rw [sampleCopies_exchanges]
    exact List.mem_cons_self
  have hsecond : secondAnswer ∈ (Front.reached hashingEnv (fun _ _ => true) sampleJson
      [sampleKeyset] sampleCopies).exchanges := by
    rw [sampleCopies_exchanges]
    exact List.mem_cons_of_mem _ List.mem_cons_self
  have hinput : sampleProof 8 "a" ∈ sampleAnswer.request.inputs := List.mem_cons_self
  have hinput' : sampleProof 8 "b" ∈ secondAnswer.request.inputs := List.mem_cons_self
  exact ⟨sampleCopies_exchanges,
    (swap_copies_agree hashingEnv (fun _ _ => true) sampleJson [sampleKeyset] sampleCopies
      sampleCopies_keysDistinct sampleAnswer sampleAnswer hfirst hfirst _ _ rfl rfl _ _ hinput
      hinput rfl).2.2.1,
    (swap_copies_agree hashingEnv (fun _ _ => true) sampleJson [sampleKeyset] sampleCopies
      sampleCopies_keysDistinct secondAnswer secondAnswer hsecond hsecond _ _ rfl rfl _ _ hinput'
      hinput' rfl).2.2.1⟩

end Cdk
