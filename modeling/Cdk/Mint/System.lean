import Cdk.Mint.Melt
import Cdk.Lib.Runs

/-!
# The mint as a system

The requests of a mint run concurrently, each as a sequence of transactions.
Between two transactions a request is a task in memory. An action lets one task
take its next step, delivers an answer of the outside world, or restarts the
process, which drops every task. All choices are in the actions: which task
moves, which call fails, and what a backend answers.

Identifiers of operations and of quotes are drawn from one counter, so no two
of them are equal.
-/

namespace Cdk

open Lib

/-! ## Start-up -/

/-- Run a call whose error is only logged. -/
def attempt {α : Type} (x : DbTx α) : MintTx Unit := fun db =>
  match x db with
  | .ok (_, db') => .ok ((), db')
  | .err _ => .ok ((), db)
  | .panic => .panic

/-- The state that a checked payment gives to its quote. -/
def stateAfterCheck : MeltQuoteState → MeltQuoteState
  | .unpaid => .unpaid
  | .paid => .paid
  | .pending => .pending
  | .failed => .unpaid
  | .unknown => .unpaid

/-- One round of the check of pending quotes; a check that fails ends the loop. -/
def checkPendingMeltQuote (backends : Backends) (check : PaymentIdentifier → Option MeltQuoteState)
    (quote : MeltQuote) : MintTx Unit :=
  if backends quote.unit .bolt11 then
    match quote.requestLookupId with
    | none => pure ()
    | some lookup =>
        match check lookup with
        | none => Tx.fail .internal
        | some status => attempt (Db.updateMeltQuoteState quote.id (stateAfterCheck status))
  else pure ()

/-- `Mint::check_pending_melt_quotes`. -/
def checkPendingMeltQuotes (backends : Backends)
    (check : PaymentIdentifier → Option MeltQuoteState) : MintTx Unit := do
  let quotes ← Tx.read fun db =>
    db.meltQuotes.rows.filter fun q => q.state = .pending ∨ q.state = .unknown
  quotes.forM (checkPendingMeltQuote backends check)

/-! ## Tasks -/

/-- A swap between its two transactions. -/
structure SwapTask where
  setup : SwapSetup
  signatures : Option (List BlindSignature)
deriving DecidableEq, Repr

/-- A swap that is being undone, after a failure or, in a recovery, after a restart. Once its
rows are removed, its saga is deleted. -/
structure Compensation where
  saga : Saga
  recovery : Bool
  removed : Bool
deriving DecidableEq, Repr

/-- What a melt waits for after its first transaction. -/
inductive MeltPhase where
  | paying (quote : MeltQuote)
  | change (change : PendingChange)
deriving DecidableEq, Repr

structure MeltTask where
  operationId : Uuid
  writer : ProofWriter
  phase : MeltPhase
deriving DecidableEq, Repr

/-- The task that a dropped writer has spawned. -/
structure RollbackTask where
  operationId : Uuid
  writer : ProofWriter
deriving DecidableEq, Repr

/-- A mint with its tasks. Two logs record what no table does: the swaps that have completed, and
the payments that were settled internally. -/
structure World where
  db : Db
  keysets : Keysets
  nextId : Uuid
  swaps : List SwapTask
  compensations : List Compensation
  melts : List MeltTask
  rollbacks : List RollbackTask
  finalized : List SwapSetup
  internal : List String
deriving DecidableEq

/-- A new mint. -/
def World.init (keysets : Keysets) : World :=
  ⟨Db.empty, keysets, 0, [], [], [], [], [], []⟩

/-! ## Steps -/

inductive Action where
  | createMintQuote (quote : MintQuote)
  | createMeltQuote (quote : MeltQuote)
  | notifyPayment (response : WaitPaymentResponse)
  | checkPaid (quoteId : QuoteId) (answer : StatusAnswer)
  | issue (signing : Keysets) (request : MintRequest)
  | setupSwap (now : Nat) (request : SwapRequest)
  | signSwap (task : SwapTask) (fails : Bool)
  | finalizeSwap (task : SwapTask) (fault : Fault)
  | compensate (task : Compensation) (fails : Bool)
  | deleteSaga (task : Compensation) (fails : Bool)
  | startMelt (now : Nat) (request : MeltRequest) (commitFails : Bool)
  | payMelt (task : MeltTask) (backend : PaymentBackend) (commitFails : Bool)
  | signChange (task : MeltTask) (commitFails : Bool)
  | rollback (task : RollbackTask)
  | restart (check : PaymentIdentifier → Option MeltQuoteState)
  | rotateKeyset (keyset : KeySet)

namespace World

variable (env : Env) (backends : Backends) (w : World)

/-- Commit a transaction that no task waits for. -/
def transact {α : Type} (x : MintTx α) : World := { w with db := (Tx.commit x w.db).2 }

/-- Take a new identifier. -/
def tick : World := { w with nextId := w.nextId + 1 }

def createMintQuote (quote : MintQuote) : World :=
  (w.transact ((Db.addMintQuote { quote with id := .uuid w.nextId }).mapErr Error.ofDb)).tick

def createMeltQuote (quote : MeltQuote) : World :=
  (w.transact ((Db.addMeltQuote
    { quote with id := .uuid w.nextId, state := .unpaid }).mapErr Error.ofDb)).tick

def checkPaid (quoteId : QuoteId) (answer : StatusAnswer) : World :=
  match w.db.mintQuotes.find? quoteId with
  | some quote => w.transact (checkMintQuotePaid answer quote)
  | none => w

def issue (signing : Keysets) (request : MintRequest) : World :=
  (w.transact (signAndIssue env w.keysets signing w.nextId request)).tick

/-! ### Swaps -/

def setupSwap (now : Nat) (request : SwapRequest) : World :=
  match startSwap env w.keysets now w.nextId request w.db with
  | .ok (setup, db') =>
      let task : SwapTask := ⟨setup, none⟩
      { w with db := db', swaps := w.swaps ++ [task] }.tick
  | _ => w.tick

/-- Give a swap up to its compensation. -/
def failSwap (task : SwapTask) : World :=
  { w with
    swaps := w.swaps.erase task
    compensations := w.compensations ++ [⟨task.setup.saga, false, false⟩] }

/-- End a swap without a compensation. -/
def dropSwap (task : SwapTask) : World := { w with swaps := w.swaps.erase task }

def signSwap (task : SwapTask) (fails : Bool) : World :=
  match fails, blindSign env w.keysets task.setup.blindedMessages with
  | false, .ok signatures =>
      { w with swaps := w.swaps.erase task ++ [{ task with signatures := some signatures }] }
  | false, .panic => w.dropSwap task
  | _, _ => w.failSwap task

/-- The second transaction; a failure to open or to commit it ends the swap. -/
def finalizeSwap (task : SwapTask) (signatures : List BlindSignature) (fault : Fault) : World :=
  match fault.at? .beginFinalize with
  | some _ => w.dropSwap task
  | none =>
      match storeSwap fault task.setup signatures w.db with
      | .err _ => w.failSwap task
      | .panic => w.dropSwap task
      | .ok (_, stored) =>
          match fault.at? .commitFinalize with
          | some _ => w.dropSwap task
          | none =>
              { w.dropSwap task with
                db := deleteSagaUnless (fault.at? .deleteSaga).isSome task.setup.operationId stored
                finalized := w.finalized ++ [task.setup] }

/-- A recovery that fails keeps its saga; a failing compensation deletes it. -/
def compensate (task : Compensation) (fails : Bool) : World :=
  let removed : Compensation := { task with removed := true }
  match fails, removeSwapSetup task.saga.blindedSecrets task.saga.inputYs w.db with
  | false, .ok (_, db') =>
      { w with db := db', compensations := w.compensations.erase task ++ [removed] }
  | _, _ =>
      if task.recovery then { w with compensations := w.compensations.erase task }
      else { w with compensations := w.compensations.erase task ++ [removed] }

def deleteSaga (task : Compensation) (fails : Bool) : World :=
  { w with
    db := deleteSagaUnless fails task.saga.operationId w.db
    compensations := w.compensations.erase task }

/-! ### Melts -/

/-- Drop a writer; its task runs later. -/
def spawnRollback (operationId : Uuid) (writer : ProofWriter) : World :=
  { w with rollbacks := w.rollbacks ++ [⟨operationId, writer⟩] }

/-- The task of a melt that has promised change. -/
def changeTask (operationId : Uuid) (writer : ProofWriter) (change : Option PendingChange) :
    List MeltTask :=
  change.toList.map fun c => ⟨operationId, writer, .change c⟩

def startMelt (now : Nat) (request : MeltRequest) (commitFails : Bool) : World :=
  match Cdk.startMelt env w.keysets backends now w.nextId request w.db with
  | .ok ((writer, start), db') =>
      if commitFails then (w.spawnRollback w.nextId writer).tick
      else match start with
        | .settled change =>
            { w with
              db := db'
              melts := w.melts ++ changeTask w.nextId writer change
              internal := w.internal ++ [request.quote.toText] }.tick
        | .external quote =>
            let task : MeltTask := ⟨w.nextId, writer, .paying quote⟩
            { w with db := db', melts := w.melts ++ [task] }.tick
  | .err failure => (w.spawnRollback w.nextId failure.writer).tick
  | .panic => w.tick

def endMelt (task : MeltTask) : World := { w with melts := w.melts.erase task }

/-- End a melt and drop its writer. -/
def releaseMelt (task : MeltTask) (writer : ProofWriter) : World :=
  (w.endMelt task).spawnRollback task.operationId writer

/-- The second transaction of a melt that has been paid. -/
def settleMelt (task : MeltTask) (quote : MeltQuote) (response : MakePaymentResponse)
    (commitFails : Bool) : World :=
  match settleExternal env w.keysets task.writer quote response w.db with
  | .ok ((writer, change), db') =>
      if commitFails then w.releaseMelt task writer
      else { w with
        db := db'
        melts := w.melts.erase task ++ changeTask task.operationId writer change }
  | .err failure => w.releaseMelt task failure.writer
  | .panic => w.endMelt task

def payMelt (task : MeltTask) (quote : MeltQuote) (backend : PaymentBackend)
    (commitFails : Bool) : World :=
  match outgoingPaymentOptions quote, decidePayment backend quote with
  | .ok _, .settle response => w.settleMelt env task quote response commitFails
  | .ok _, .hold _ => w.endMelt task
  | _, _ => w.releaseMelt task task.writer

/-- The transaction that stores the change; its writer is committed before it ends. -/
def signChange (task : MeltTask) (change : PendingChange) (commitFails : Bool) : World :=
  match blindSign env w.keysets change.messages with
  | .ok signatures =>
      match storeChange change signatures w.db with
      | .ok (_, db') =>
          if commitFails then w.endMelt task else { w.endMelt task with db := db' }
      | _ => w.releaseMelt task task.writer
  | _ => w.releaseMelt task task.writer

def rollback (task : RollbackTask) : World :=
  { w with
    db := (task.writer.rollback w.db).2
    rollbacks := w.rollbacks.erase task }

/-! ### Restarts and keysets -/

/-- Drop every task and run the start-up checks. A check of the melts that fails ends the start
before the recovery. -/
def restart (check : PaymentIdentifier → Option MeltQuoteState) : World :=
  match checkPendingMeltQuotes backends check w.db with
  | .ok (_, db') =>
      { w with
        db := db'
        swaps := []
        compensations := db'.sagas.rows.map fun saga => ⟨saga, true, false⟩
        melts := []
        rollbacks := [] }
  | _ => { w with swaps := [], compensations := [], melts := [], rollbacks := [] }

/-- Add an active keyset under a new identifier and deactivate the others of its unit. -/
def rotateKeyset (keyset : KeySet) : World :=
  if (w.keysets.info keyset.id).isSome then w
  else { w with
    keysets := (w.keysets.map fun k =>
      if k.unit = keyset.unit then { k with active := false } else k) ++
        [{ keyset with active := true }] }

/-- One step of the mint; an action on a task that does not exist does nothing. -/
def step : Action → World
  | .createMintQuote quote => w.createMintQuote quote
  | .createMeltQuote quote => w.createMeltQuote quote
  | .notifyPayment response => w.transact (handlePaymentNotification response)
  | .checkPaid quoteId answer => w.checkPaid quoteId answer
  | .issue signing request => w.issue env signing request
  | .setupSwap now request => w.setupSwap env now request
  | .signSwap task fails =>
      if task ∈ w.swaps ∧ task.signatures = none then w.signSwap env task fails else w
  | .finalizeSwap task fault =>
      match task.signatures with
      | some signatures => if task ∈ w.swaps then w.finalizeSwap task signatures fault else w
      | none => w
  | .compensate task fails =>
      if task ∈ w.compensations ∧ task.removed = false then w.compensate task fails else w
  | .deleteSaga task fails =>
      if task ∈ w.compensations ∧ task.removed = true then w.deleteSaga task fails else w
  | .startMelt now request commitFails => w.startMelt env backends now request commitFails
  | .payMelt task backend commitFails =>
      match task.phase with
      | .paying quote => if task ∈ w.melts then w.payMelt env task quote backend commitFails else w
      | .change _ => w
  | .signChange task commitFails =>
      match task.phase with
      | .change change => if task ∈ w.melts then w.signChange env task change commitFails else w
      | .paying _ => w
  | .rollback task => if task ∈ w.rollbacks then w.rollback task else w
  | .restart check => w.restart backends check
  | .rotateKeyset keyset => w.rotateKeyset keyset

/-- The state that a new mint reaches by a list of actions. -/
def reached (keysets : Keysets) (actions : List Action) : World :=
  run (World.step env backends) (World.init keysets) actions

end World

end Cdk
