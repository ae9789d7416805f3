import Cdk.Mint.System

/-!
# Requests that run alone

Each request of the mint is also a function from the database to its result.
Such a function is one schedule of the system: the steps of its tasks, taken
one after the other with nothing in between. What holds in every run of the
system therefore holds of the database that a request leaves.
-/

namespace Cdk

open Lib

/-- A database that the system reaches from a state. -/
def Reaches (env : Env) (backends : Backends) (w : World) (db : Db) : Prop :=
  ∃ actions, (run (World.step env backends) w actions).db = db

section Schedules

variable {env : Env} {backends : Backends} {w : World} {db : Db}

theorem Reaches.refl : Reaches env backends w w.db := ⟨[], rfl⟩

/-- Take one step and go on from there. -/
theorem Reaches.step (a : Action) (h : Reaches env backends (w.step env backends a) db) :
    Reaches env backends w db := by
  obtain ⟨actions, hrun⟩ := h
  exact ⟨a :: actions, hrun⟩

/-! ## Minting -/

theorem processMintRequest_reaches (w : World) (answer : StatusAnswer) (request : MintRequest) :
    Reaches env backends w
      (processMintRequest env w.keysets answer w.nextId request w.db).2 := by
  unfold processMintRequest
  split
  next => exact .refl
  next quote hquote =>
    have hcheck : w.step env backends (.checkPaid request.quote answer) =
        { w with db := (Tx.commit (checkMintQuotePaid answer quote) w.db).2 } := by
      simp only [World.step, World.checkPaid, hquote, World.transact]
    split
    next =>
      apply Reaches.step (.checkPaid request.quote answer)
      rw [hcheck]
      rcases hcommit : Tx.commit (checkMintQuotePaid answer quote) w.db with ⟨result, checked⟩
      cases result with
      | ok value =>
          apply Reaches.step (.issue w.keysets request)
          exact .refl
      | err e => exact .refl
      | panic => exact .refl
    next =>
      apply Reaches.step (.issue w.keysets request)
      exact .refl

/-! ## Swaps -/

/-- A compensation goes on to the deletion of its saga whether or not it has removed the rows. -/
theorem compensate_eq (w : World) {task : Compensation} (h : task.recovery = false) :
    w.compensate task false =
      { w with
        db := (Tx.commit (removeSwapSetup task.saga.blindedSecrets task.saga.inputYs) w.db).2
        compensations := w.compensations.erase task ++ [{ task with removed := true }] } := by
  unfold World.compensate Tx.commit
  cases removeSwapSetup task.saga.blindedSecrets task.saga.inputYs w.db <;> simp [h]

/-- A swap that has failed is undone by two steps. -/
theorem compensateAll_reaches {setup : SwapSetup}
    (htask : ⟨setup.saga, false, false⟩ ∈ w.compensations) :
    Reaches env backends w (compensateAll setup w.db) := by
  let task : Compensation := ⟨setup.saga, false, false⟩
  let removed : Compensation := ⟨setup.saga, false, true⟩
  have hremove : w.step env backends (.compensate task false) = w.compensate task false :=
    if_pos ⟨htask, rfl⟩
  apply Reaches.step (.compensate task false)
  apply Reaches.step (.deleteSaga removed false)
  have hdelete : ∀ w' : World, removed ∈ w'.compensations →
      w'.step env backends (.deleteSaga removed false) = w'.deleteSaga removed false :=
    fun w' hmem => if_pos ⟨hmem, rfl⟩
  rw [hremove, compensate_eq w rfl, hdelete _ (by simp [task, removed])]
  exact .refl

/-- A failing second transaction ends the swap or has it undone. -/
theorem finalizeSwap_reaches {setup : SwapSetup} {signatures : List BlindSignature}
    (htask : ⟨setup, some signatures⟩ ∈ w.swaps) (fault : Fault) :
    Reaches env backends w (finalizeSwap fault setup signatures w.db).2 := by
  let task : SwapTask := ⟨setup, some signatures⟩
  have hstep : w.step env backends (.finalizeSwap task fault) =
      w.finalizeSwap task signatures fault := if_pos htask
  apply Reaches.step (.finalizeSwap task fault)
  rw [hstep]
  unfold finalizeSwap World.finalizeSwap
  cases fault.at? .beginFinalize with
  | some e => exact .refl
  | none =>
      dsimp only
      cases storeSwap fault setup signatures w.db with
      | err e =>
          have hmem : ⟨setup.saga, false, false⟩ ∈ (w.failSwap task).compensations := by
            simp [World.failSwap, task]
          exact compensateAll_reaches hmem
      | panic => exact .refl
      | ok stored =>
          dsimp only
          cases fault.at? .commitFinalize with
          | some e => exact .refl
          | none => exact .refl

theorem finishSwap_reaches {now : Nat} {request : SwapRequest} {setup : SwapSetup} {db' : Db}
    (h : startSwap env w.keysets now w.nextId request w.db = .ok (setup, db')) (fault : Fault) :
    Reaches env backends w (finishSwap env w.keysets fault setup db').2 := by
  let task : SwapTask := ⟨setup, none⟩
  let w' : World := { w with db := db', swaps := w.swaps ++ [task] }.tick
  have hsetup : w.step env backends (.setupSwap now request) = w' := by
    simp only [World.step, World.setupSwap, h]
    rfl
  have htask : task ∈ w'.swaps ∧ task.signatures = none := ⟨by simp [w', World.tick], rfl⟩
  have hsign : ∀ fails, w'.step env backends (.signSwap task fails) = w'.signSwap env task fails :=
    fun fails => if_pos htask
  have hundone : Reaches env backends (w'.failSwap task) (compensateAll setup db') :=
    compensateAll_reaches (by simp [World.failSwap, task])
  apply Reaches.step (.setupSwap now request)
  rw [hsetup]
  unfold finishSwap
  cases fault.at? .signOutputs with
  | some e =>
      apply Reaches.step (.signSwap task true)
      rw [hsign]
      exact hundone
  | none =>
      apply Reaches.step (.signSwap task false)
      rw [hsign]
      unfold World.signSwap
      have hsame : blindSign env w'.keysets task.setup.blindedMessages =
          blindSign env w.keysets setup.blindedMessages := rfl
      rw [hsame]
      cases blindSign env w.keysets setup.blindedMessages with
      | err e => exact hundone
      | panic => exact .refl
      | ok signatures => exact finalizeSwap_reaches (by simp [task]) fault

/-! ## Melts -/

/-- A dropped writer is rolled back by its task. -/
theorem rollback_reaches {operationId : Uuid} {writer : ProofWriter}
    (htask : ⟨operationId, writer⟩ ∈ w.rollbacks) :
    Reaches env backends w (writer.rollback w.db).2 := by
  apply Reaches.step (.rollback ⟨operationId, writer⟩)
  have hstep : w.step env backends (.rollback ⟨operationId, writer⟩) =
      w.rollback ⟨operationId, writer⟩ := if_pos htask
  rw [hstep]
  exact .refl

theorem releaseMelt_reaches (task : MeltTask) (writer : ProofWriter) :
    Reaches env backends (w.releaseMelt task writer) (writer.rollback w.db).2 := by
  have htask : ⟨task.operationId, writer⟩ ∈ (w.releaseMelt task writer).rollbacks := by
    simp [World.releaseMelt, World.spawnRollback]
  exact rollback_reaches htask

theorem finishChange_reaches {operationId : Uuid} {writer : ProofWriter}
    {change : Option PendingChange}
    (htask : ∀ task ∈ World.changeTask operationId writer change, task ∈ w.melts) :
    Reaches env backends w (finishChange env w.keysets writer change w.db).2 := by
  cases change with
  | none => exact .refl
  | some change =>
      let task : MeltTask := ⟨operationId, writer, .change change⟩
      have hmem : task ∈ w.melts := htask task (by simp [World.changeTask, task])
      have hstep : w.step env backends (.signChange task false) =
          w.signChange env task change false := if_pos hmem
      apply Reaches.step (.signChange task false)
      rw [hstep]
      unfold finishChange World.signChange
      dsimp only
      cases blindSign env w.keysets change.messages with
      | err e => exact releaseMelt_reaches task writer
      | panic => exact releaseMelt_reaches task writer
      | ok signatures =>
          dsimp only
          cases storeChange change signatures w.db with
          | err e => exact releaseMelt_reaches task writer
          | panic => exact releaseMelt_reaches task writer
          | ok stored => exact .refl

/-- A melt that waits for its payment takes the answers of the backend in one step, and its change
or its rollback afterwards. -/
theorem payExternally_reaches {operationId : Uuid} {writer : ProofWriter} {quote : MeltQuote}
    (htask : ⟨operationId, writer, .paying quote⟩ ∈ w.melts) (backend : PaymentBackend) :
    Reaches env backends w (payExternally env w.keysets backend writer quote w.db).2 := by
  let task : MeltTask := ⟨operationId, writer, .paying quote⟩
  have hstep : w.step env backends (.payMelt task backend false) =
      w.payMelt env task quote backend false := if_pos htask
  have hreleased : Reaches env backends (w.releaseMelt task writer) (writer.rollback w.db).2 :=
    releaseMelt_reaches task writer
  apply Reaches.step (.payMelt task backend false)
  rw [hstep]
  unfold payExternally World.payMelt
  cases outgoingPaymentOptions quote with
  | err e => exact hreleased
  | panic => exact hreleased
  | ok u =>
      dsimp only
      cases decidePayment backend quote with
      | hold e => exact .refl
      | drop e => exact hreleased
      | rollback =>
          dsimp only
          rcases hroll : writer.rollback w.db with ⟨result, restored⟩
          rw [hroll] at hreleased
          cases result <;> exact hreleased
      | settle response =>
          dsimp only
          unfold finishPaid World.settleMelt
          dsimp only [task]
          cases settleExternal env w.keysets writer quote response w.db with
          | err failure => exact releaseMelt_reaches task failure.writer
          | panic => exact .refl
          | ok settled =>
              obtain ⟨⟨writer', change⟩, db'⟩ := settled
              let w' : World := { w with
                db := db'
                melts := w.melts.erase task ++ World.changeTask operationId writer' change }
              have hmem : ∀ t ∈ World.changeTask operationId writer' change, t ∈ w'.melts :=
                fun t ht => List.mem_append_right _ ht
              exact finishChange_reaches hmem

theorem melt_reaches (w : World) (backend : PaymentBackend) (now : Nat) (request : MeltRequest) :
    Reaches env backends w
      (melt env w.keysets backends backend now w.nextId request w.db).2 := by
  have hstep : w.step env backends (.startMelt now request false) =
      w.startMelt env backends now request false := rfl
  apply Reaches.step (.startMelt now request false)
  rw [hstep]
  unfold melt World.startMelt
  cases startMelt env w.keysets backends now w.nextId request w.db with
  | err failure =>
      have hmem : ⟨w.nextId, failure.writer⟩ ∈
          (w.spawnRollback w.nextId failure.writer).tick.rollbacks := by
        simp [World.spawnRollback, World.tick]
      exact rollback_reaches hmem
  | panic => exact .refl
  | ok started =>
      obtain ⟨⟨writer, start⟩, db'⟩ := started
      cases start with
      | settled change =>
          let w' : World := { w with
            db := db'
            melts := w.melts ++ World.changeTask w.nextId writer change
            internal := w.internal ++ [request.quote.toText] }.tick
          have hmem : ∀ t ∈ World.changeTask w.nextId writer change, t ∈ w'.melts :=
            fun t ht => List.mem_append_right _ ht
          exact finishChange_reaches hmem
      | external quote =>
          let task : MeltTask := ⟨w.nextId, writer, .paying quote⟩
          let w' : World := { w with db := db', melts := w.melts ++ [task] }.tick
          have hmem : task ∈ w'.melts := by simp [w', World.tick]
          exact payExternally_reaches hmem backend

end Schedules

end Cdk
