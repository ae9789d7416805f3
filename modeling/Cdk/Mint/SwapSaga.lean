import Cdk.Mint.DatabaseSpec

/-!
# The swap saga

A swap is two transactions around a signature: the first reserves inputs and
outputs and records a saga, the second stores the signatures and marks the
inputs spent. A failure in between is undone by a compensation, which deletes
the reserved rows by their keys.

Every database call of the second half can fail. The calls that open and that
commit the second transaction return early, past the compensation.
-/

namespace Cdk

open Lib

/-- What a swap carries from its first transaction to its second. -/
structure SwapSetup where
  operationId : Uuid
  blindedMessages : List BlindedMessage
  ys : List PublicKey
deriving DecidableEq, Repr

namespace SwapSetup

def operation (setup : SwapSetup) : Operation := ⟨.swap, setup.operationId⟩

def blindedSecrets (setup : SwapSetup) : List PublicKey :=
  setup.blindedMessages.map BlindedMessage.blindedSecret

/-- The saga row that allows the recovery of the swap. -/
def saga (setup : SwapSetup) : Saga := ⟨setup.operationId, setup.blindedSecrets, setup.ys⟩

end SwapSetup

section Transactions

variable (env : Env) (keysets : Keysets)

/-- `Mint::validate_sig_flag`. -/
def validateSigFlag (request : SwapRequest) : Outcome Error Unit := do
  let flag ← (enforceSigFlag env request.inputs).mapErr Error.nut11
  if flag.sigFlag = .sigAll then (request.verifySigAll env).mapErr Error.nut11 else .ok ()

/-- The checks of `process_swap_request` that need no database. -/
def verifySwapRequest (now : Nat) (request : SwapRequest) : Outcome Error Verification := do
  let _ ← Outcome.ofOption .amountOverflow (Amount.trySum (request.inputs.map Proof.amount))
  let _ ← Outcome.ofOption .amountOverflow
    (Amount.trySum (request.outputs.map BlindedMessage.amount))
  let verification ← verifyInputs env keysets now request.inputs
  validateSigFlag env request
  .ok verification

/-- The error of a swap whose inputs are stored already. -/
def addProofsError : DbError → Error
  | .duplicate => .tokenPending
  | .attemptUpdateSpentProof => .tokenAlreadySpent
  | e => .database e

/-- The error of a swap whose inputs cannot change their state. -/
def updateStatesError : DbError → Error
  | .attemptUpdateSpentProof => .tokenAlreadySpent
  | .attemptRemoveSpentProof => .tokenAlreadySpent
  | e => Error.ofDb e

def addMessagesError : DbError → Error
  | .duplicate => .duplicateOutputs
  | e => .database e

/-- The states that inputs must not have had before they became pending. -/
def forbiddenState : Option State → Outcome Error Unit
  | some .pending => .err .tokenPending
  | some .spent => .err .tokenAlreadySpent
  | _ => .ok ()

/-- `SwapSaga::setup_swap`. -/
def setupSwap (operationId : Uuid) (verification : Verification) (request : SwapRequest) :
    MintTx SwapSetup := do
  verifyTransactionBalanced keysets verification request.inputs request.outputs
  (Db.addProofs env request.inputs none ⟨.swap, operationId⟩).mapErr addProofsError
  let ys ← Tx.lift (ysOf env request.inputs)
  let original ← (Db.updateProofsStates ys .pending).mapErr updateStatesError
  Tx.ensure (ys.length = original.length) .internal
  Tx.lift (original.forM forbiddenState)
  (Db.addBlindedMessages none request.outputs ⟨.swap, operationId⟩).mapErr addMessagesError
  let setup : SwapSetup := ⟨operationId, request.outputs, ys⟩
  (Db.addSaga setup.saga).mapErr Error.ofDb
  pure setup

/-- `process_swap_request` up to the commit of its first transaction. -/
def startSwap (now : Nat) (operationId : Uuid) (request : SwapRequest) : MintTx SwapSetup := do
  let verification ← Tx.lift (verifySwapRequest env keysets now request)
  setupSwap env keysets operationId verification request

/-- The steps after the first transaction that can fail. -/
inductive SwapStep where
  | signOutputs
  | beginFinalize
  | addBlindSignatures
  | updateProofsStates
  | deleteSaga
  | commitFinalize
deriving DecidableEq, Repr

/-- A failing step with its error. -/
abbrev Fault := Option (SwapStep × Error)

/-- Run a step unless it is the failing one. -/
def Fault.guard {α : Type} (fault : Fault) (step : SwapStep) (x : MintTx α) : MintTx α :=
  match fault with
  | some (failing, e) => if failing = step then Tx.fail e else x
  | none => x

/-- The statements of the second transaction whose errors start the compensation. -/
def storeSwap (fault : Fault) (setup : SwapSetup) (signatures : List BlindSignature) :
    MintTx Unit := do
  fault.guard .addBlindSignatures
    ((Db.addBlindSignatures setup.blindedSecrets signatures none).mapErr Error.ofDb)
  let _ ← fault.guard .updateProofsStates
    ((Db.updateProofsStates setup.ys .spent).mapErr updateStatesError)

/-- The best-effort deletion of the saga. -/
def deleteSagaUnless (fails : Bool) (operationId : Uuid) (db : Db) : Db :=
  if fails then db else Db.withoutSaga operationId db

/-- `RemoveSwapSetup::execute`. -/
def removeSwapSetup (blindedSecrets ys : List PublicKey) : MintTx Unit := do
  (Db.deleteBlindedMessages blindedSecrets).mapErr Error.ofDb
  (Db.removeProofs ys).mapErr Error.ofDb

/-- `SwapSaga::compensate_all` with a database that answers: the saga is deleted even when the
compensation has failed. -/
def compensateAll (setup : SwapSetup) (db : Db) : Db :=
  Db.withoutSaga setup.operationId
    (Tx.commit (removeSwapSetup setup.blindedSecrets setup.ys) db).2

/-- Whether a fault is an error of the given step. -/
def Fault.at? (fault : Fault) (step : SwapStep) : Option Error :=
  fault.bind fun f => if f.1 = step then some f.2 else none

theorem Fault.guard_of_none {α : Type} {fault : Fault} {step : SwapStep} {x : MintTx α}
    (h : fault.at? step = none) : fault.guard step x = x := by
  obtain _ | ⟨failing, e⟩ := fault
  · rfl
  · by_cases hs : failing = step <;> simp_all [Fault.at?, Fault.guard]

theorem Fault.guard_of_some {α : Type} {fault : Fault} {step : SwapStep} {x : MintTx α}
    {e : Error} (h : fault.at? step = some e) : fault.guard step x = Tx.fail e := by
  obtain _ | ⟨failing, e'⟩ := fault
  · cases h
  · by_cases hs : failing = step <;> simp_all [Fault.at?, Fault.guard]

/-- `SwapSaga::finalize`. -/
def finalizeSwap (fault : Fault) (setup : SwapSetup) (signatures : List BlindSignature)
    (db : Db) : Outcome Error (List BlindSignature) × Db :=
  match fault.at? .beginFinalize with
  | some e => (.err e, db)
  | none =>
      match storeSwap fault setup signatures db with
      | .err e => (.err e, compensateAll setup db)
      | .panic => (.panic, db)
      | .ok (_, stored) =>
          match fault.at? .commitFinalize with
          | some e => (.err e, db)
          | none => (.ok signatures,
              deleteSagaUnless (fault.at? .deleteSaga).isSome setup.operationId stored)

/-- `sign_outputs` followed by `finalize`. -/
def finishSwap (fault : Fault) (setup : SwapSetup) (db : Db) :
    Outcome Error (List BlindSignature) × Db :=
  match fault.at? .signOutputs with
  | some e => (.err e, compensateAll setup db)
  | none =>
      match blindSign env keysets setup.blindedMessages with
      | .err e => (.err e, compensateAll setup db)
      | .panic => (.panic, db)
      | .ok signatures => finalizeSwap fault setup signatures db

end Transactions

/-! ## The first transaction -/

/-- What a committed first transaction has added to the database. -/
structure SwapReserved (env : Env) (request : SwapRequest) (setup : SwapSetup) (db db' : Db)
    (rows : List ProofRow) : Prop where
  messages : setup.blindedMessages = request.outputs
  reserved : Db.Reserved env request.inputs none setup.operation rows
  ys : rows.map ProofRow.y = setup.ys
  nonempty : request.inputs ≠ []
  balanced : Amount.total (request.outputs.map BlindedMessage.amount) ≤
    Amount.total (request.inputs.map Proof.amount)
  freshProofs : ∀ r ∈ db.proofs.rows, r.y ∉ setup.ys
  freshMessages : ∀ r ∈ db.blindSignatures.rows, r.blindedMessage ∉ setup.blindedSecrets
  freshSaga : ∀ s ∈ db.sagas.rows, s.operationId ≠ setup.operationId
  proofs : db'.proofs.rows = db.proofs.rows ++ rows
  signatures : db'.blindSignatures.rows = db.blindSignatures.rows ++
    Db.messageRows none setup.operation request.outputs
  sagas : db'.sagas.rows = db.sagas.rows ++ [setup.saga]
  frame : db' = { db with
    proofs := db'.proofs
    blindSignatures := db'.blindSignatures
    sagas := db'.sagas }

section Setup

variable {env : Env} {keysets : Keysets} {now : Nat} {request : SwapRequest} {db db' : Db}
variable {setup : SwapSetup} {operationId : Uuid}

theorem verifyInputsKeyset_nonempty {inputs : List Proof} {unit : CurrencyUnit}
    (h : verifyInputsKeyset keysets inputs = .ok unit) : inputs ≠ [] := by
  rintro rfl
  simp [verifyInputsKeyset, singleUnit] at h

theorem verifySwapRequest_eq_ok {v : Verification}
    (h : verifySwapRequest env keysets now request = .ok v) :
    verifyInputs env keysets now request.inputs = .ok v := by
  simp only [verifySwapRequest, Outcome.bind_eq_ok, Outcome.ok.injEq] at h
  obtain ⟨_, -, _, -, v', hv, _, -, rfl⟩ := h
  exact hv

theorem startSwap_ok (h : startSwap env keysets now operationId request db = .ok (setup, db')) :
    setup.operationId = operationId ∧ ∃ rows, SwapReserved env request setup db db' rows := by
  simp only [startSwap, setupSwap, Tx.bind_ok, Tx.lift_ok, Tx.mapErr_ok, Tx.ensure_ok,
    Tx.pure_ok] at h
  obtain ⟨v, _, ⟨hv, rfl⟩, _, _, hbal, _, mid, hadd, ys, _, ⟨hys, rfl⟩, original, mid', hupd, _, _,
    ⟨-, rfl⟩, _, _, ⟨-, rfl⟩, _, mid'', hmsg, _, _, hsaga, rfl, rfl⟩ := h
  obtain ⟨hamount, -, ⟨unit, -, hunit⟩, -⟩ := verifyInputs_eq_ok (verifySwapRequest_eq_ok hv)
  obtain ⟨rfl, hle, -⟩ := verifyTransactionBalanced_ok hbal
  obtain ⟨rows, t, hres, hkeys, hrows, rfl⟩ := Db.reserve_ok hadd hys hupd
  obtain ⟨b, hb, rfl⟩ := Db.addBlindedMessages_ok hmsg
  obtain ⟨s, hfresh, hs, rfl⟩ := Db.addSaga_ok hsaga
  refine ⟨rfl, rows, ?_⟩
  exact
    { messages := rfl
      reserved := hres
      ys := hkeys
      nonempty := verifyInputsKeyset_nonempty hunit
      balanced := hamount ▸ hle
      freshProofs := hkeys ▸ (Table.fresh_of_append hrows).1
      freshMessages := by
        have hf := (Table.fresh_of_append (Table.insertAll?_rows hb)).1
        simpa [Db.messageRows, SwapSetup.blindedSecrets, Function.comp_def] using hf
      freshSaga := hfresh
      proofs := hrows
      signatures := Table.insertAll?_rows hb
      sagas := hs
      frame := rfl }

end Setup

/-! ## Compensation -/

section Compensation

variable {env : Env} {request : SwapRequest} {setup : SwapSetup} {db db' : Db}
variable {rows : List ProofRow}

namespace SwapReserved

theorem mem_ys (h : SwapReserved env request setup db db' rows) {r : ProofRow} (hr : r ∈ rows) :
    r.y ∈ setup.ys :=
  h.ys ▸ List.mem_map_of_mem hr

theorem removable_new (h : SwapReserved env request setup db db' rows) :
    ∀ r ∈ rows, Db.removable setup.ys r = true := by
  intro r hr
  simp [Db.removable, h.mem_ys hr, (h.reserved.pending r hr).1]

theorem removable_old (h : SwapReserved env request setup db db' rows) :
    ∀ r ∈ db.proofs.rows, Db.removable setup.ys r = false := by
  intro r hr
  simp [Db.removable, h.freshProofs r hr]

theorem unsigned_new (h : SwapReserved env request setup db db' rows) :
    ∀ r ∈ Db.messageRows none setup.operation request.outputs,
      Db.unsigned setup.blindedSecrets r = true := by
  intro r hr
  obtain ⟨m, hm, rfl⟩ := List.mem_map.mp hr
  have hmem : m.blindedSecret ∈ setup.blindedSecrets := by
    rw [SwapSetup.blindedSecrets, h.messages]
    exact List.mem_map_of_mem hm
  simp [Db.unsigned, hmem]

theorem unsigned_old (h : SwapReserved env request setup db db' rows) :
    ∀ r ∈ db.blindSignatures.rows, Db.unsigned setup.blindedSecrets r = false := by
  intro r hr
  simp [Db.unsigned, h.freshMessages r hr]

theorem length_removable (h : SwapReserved env request setup db db' rows) :
    (db'.proofs.rows.filter (Db.removable setup.ys)).length = setup.ys.length := by
  rw [h.proofs, List.filter_append,
    List.filter_eq_nil_iff.mpr (by intro r hr; simp [h.removable_old r hr]), List.nil_append,
    List.filter_eq_self.mpr h.removable_new, ← h.ys, List.length_map]

/-- The compensation undoes the first transaction. -/
theorem compensateAll_eq (h : SwapReserved env request setup db db' rows) :
    compensateAll setup db' = db := by
  have hremove : removeSwapSetup setup.blindedSecrets setup.ys db' =
      .ok ((), { db' with
        proofs := db'.proofs.delete (Db.removable setup.ys)
        blindSignatures := db'.blindSignatures.delete (Db.unsigned setup.blindedSecrets) }) := by
    simp only [removeSwapSetup, Tx.bind_ok, Tx.mapErr_ok, Db.deleteBlindedMessages_ok]
    exact ⟨(), _, rfl, Db.removeProofs_of_length h.length_removable⟩
  have hsaga : db'.sagas.delete (fun s => s.operationId = setup.operationId) = db.sagas :=
    Table.delete_append h.sagas (by simp [SwapSetup.saga]) (by simpa using h.freshSaga)
  have hproofs : db'.proofs.delete (Db.removable setup.ys) = db.proofs :=
    Table.delete_append h.proofs h.removable_new h.removable_old
  have hsigs : db'.blindSignatures.delete (Db.unsigned setup.blindedSecrets) =
      db.blindSignatures :=
    Table.delete_append h.signatures h.unsigned_new h.unsigned_old
  rw [compensateAll, Tx.commit, hremove]
  simp only [Db.withoutSaga]
  rw [hsaga, hproofs, hsigs, h.frame]

theorem secrets_eq (h : SwapReserved env request setup db db' rows) :
    setup.blindedSecrets =
      (Db.messageRows none setup.operation request.outputs).map SignatureRow.blindedMessage := by
  simp [SwapSetup.blindedSecrets, h.messages, Db.messageRows, Function.comp_def]

/-- The signatures can be stored when nothing has touched the reserved messages. -/
theorem exists_signed (h : SwapReserved env request setup db db' rows)
    {signatures : List BlindSignature}
    (hlen : setup.blindedSecrets.length = signatures.length) :
    ∃ t, Db.addBlindSignatures setup.blindedSecrets signatures none db' =
      .ok ((), { db' with blindSignatures := t }) := by
  have hfree : ∀ m ∈ setup.blindedSecrets, ∃ r ∈ db'.blindSignatures.rows,
      r.blindedMessage = m ∧ r.c = none := by
    intro m hm
    rw [h.secrets_eq] at hm
    obtain ⟨r, hr, rfl⟩ := List.mem_map.mp hm
    obtain ⟨m, -, rfl⟩ := List.mem_map.mp hr
    exact ⟨_, by rw [h.signatures]; exact List.mem_append_right _ hr, rfl, rfl⟩
  obtain ⟨mid, hmid⟩ := Db.exists_addBlindSignatures none hlen
    (h.secrets_eq ▸ (Table.fresh_of_append h.signatures).2) hfree
  obtain ⟨t, rfl⟩ := Db.addBlindSignatures_frame hmid
  exact ⟨t, hmid⟩

/-- The inputs can be marked spent when nothing has touched the reserved proofs. -/
theorem exists_spent (h : SwapReserved env request setup db db' rows)
    (t : Table SignatureRow.blindedMessage) :
    ∃ original stored, Db.updateProofsStates setup.ys .spent { db' with blindSignatures := t } =
      .ok (original, stored) := by
  have hpending : ∀ y ∈ setup.ys, ∃ r ∈ ({ db' with blindSignatures := t } : Db).proofs.rows,
      r.y = y ∧ r.state.transitionAllowed .spent = true := by
    intro y hy
    rw [← h.ys] at hy
    obtain ⟨r, hr, rfl⟩ := List.mem_map.mp hy
    have hmem : r ∈ db'.proofs.rows := by
      rw [h.proofs]
      exact List.mem_append_right _ hr
    exact ⟨r, hmem, rfl, by rw [(h.reserved.pending r hr).1]; rfl⟩
  obtain ⟨original, -, hstates⟩ := Db.exists_updateProofsStates
    (h.ys ▸ (Table.fresh_of_append h.proofs).2) hpending
  exact ⟨original, _, hstates⟩

end SwapReserved

end Compensation

/-! ## A failing step -/

/-- The proof, message and saga tables are as they were. -/
def Restored (before after : Db) : Prop :=
  after.proofs = before.proofs ∧ after.blindSignatures = before.blindSignatures ∧
    after.sagas = before.sagas

theorem SwapReserved.not_restored {env : Env} {request : SwapRequest} {setup : SwapSetup}
    {db db' : Db} {rows : List ProofRow} (h : SwapReserved env request setup db db' rows) :
    ¬ Restored db db' := by
  rintro ⟨hproofs, -, -⟩
  have hrows := h.proofs
  rw [hproofs] at hrows
  have hnil : rows = [] := List.append_right_eq_self.mp hrows.symm
  have hlen := h.reserved.inputs.length_eq
  rw [hnil] at hlen
  exact h.nonempty (List.length_eq_zero_iff.mp hlen)

/-- A swap with one failing step after its first transaction returns an error, and it restores
the database unless the step opens or commits the second transaction. -/
theorem finishSwap_restores_iff (env : Env) (keysets keysets' : Keysets) (now : Nat)
    (operationId : Uuid) (request : SwapRequest) (setup : SwapSetup) (db db' : Db)
    (step : SwapStep) (error : Error)
    (hstart : startSwap env keysets now operationId request db = .ok (setup, db'))
    (hstep : step ≠ .deleteSaga)
    (hsign : step ≠ .signOutputs →
      ∃ signatures, blindSign env keysets' setup.blindedMessages = .ok signatures) :
    (∃ e, (finishSwap env keysets' (some (step, error)) setup db').1 = .err e) ∧
      (Restored db (finishSwap env keysets' (some (step, error)) setup db').2 ↔
        step ≠ .beginFinalize ∧ step ≠ .commitFinalize) := by
  obtain ⟨-, rows, hres⟩ := startSwap_ok hstart
  have hback : Restored db (compensateAll setup db') := by
    rw [hres.compensateAll_eq]
    exact ⟨rfl, rfl, rfl⟩
  have hlen : ∀ signatures, blindSign env keysets' setup.blindedMessages = .ok signatures →
      setup.blindedSecrets.length = signatures.length := by
    intro signatures hs
    rw [SwapSetup.blindedSecrets, List.length_map]
    exact (blindSign_forall₂ hs).length_eq
  cases step with
  | signOutputs => exact ⟨⟨error, rfl⟩, by simpa [finishSwap, Fault.at?] using hback⟩
  | deleteSaga => exact absurd rfl hstep
  | beginFinalize =>
      obtain ⟨signatures, hs⟩ := hsign (by decide)
      have hrun : finishSwap env keysets' (some (.beginFinalize, error)) setup db' =
          (.err error, db') := by
        simp [finishSwap, finalizeSwap, Fault.at?, hs]
      rw [hrun]
      exact ⟨⟨error, rfl⟩, by simpa using hres.not_restored⟩
  | addBlindSignatures =>
      obtain ⟨signatures, hs⟩ := hsign (by decide)
      have hrun : finishSwap env keysets' (some (.addBlindSignatures, error)) setup db' =
          (.err error, compensateAll setup db') := by
        have hstore : storeSwap (some (.addBlindSignatures, error)) setup signatures db' =
            .err error := rfl
        simp [finishSwap, finalizeSwap, Fault.at?, hs, hstore]
      rw [hrun]
      exact ⟨⟨error, rfl⟩, by simpa using hback⟩
  | updateProofsStates =>
      obtain ⟨signatures, hs⟩ := hsign (by decide)
      obtain ⟨t, hsigned⟩ := hres.exists_signed (hlen signatures hs)
      have hstore : storeSwap (some (.updateProofsStates, error)) setup signatures db' =
          .err error := by
        rw [storeSwap, Fault.guard_of_none rfl, Tx.bind_of_ok (Tx.mapErr_ok.mpr hsigned)]
        rfl
      have hrun : finishSwap env keysets' (some (.updateProofsStates, error)) setup db' =
          (.err error, compensateAll setup db') := by
        simp [finishSwap, finalizeSwap, Fault.at?, hs, hstore]
      rw [hrun]
      exact ⟨⟨error, rfl⟩, by simpa using hback⟩
  | commitFinalize =>
      obtain ⟨signatures, hs⟩ := hsign (by decide)
      obtain ⟨t, hsigned⟩ := hres.exists_signed (hlen signatures hs)
      obtain ⟨original, stored, hspent⟩ := hres.exists_spent t
      have hstore : storeSwap (some (.commitFinalize, error)) setup signatures db' =
          .ok ((), stored) := by
        rw [storeSwap, Fault.guard_of_none rfl, Tx.bind_of_ok (Tx.mapErr_ok.mpr hsigned),
          Fault.guard_of_none rfl, Tx.bind_of_ok (Tx.mapErr_ok.mpr hspent)]
        rfl
      have hrun : finishSwap env keysets' (some (.commitFinalize, error)) setup db' =
          (.err error, db') := by
        simp [finishSwap, finalizeSwap, Fault.at?, hs, hstore]
      rw [hrun]
      exact ⟨⟨error, rfl⟩, by simpa using hres.not_restored⟩

/-! ## An example -/

/-- Points are read off the bytes of a secret, and every signature is good. -/
def sampleEnv : Env where
  parseSecret _ := none
  parsePublicKey _ := none
  verifySchnorr _ _ _ := false
  sha256 _ := 0
  hashToCurve bytes := some ⟨false, BitVec.ofNat 256 (bytes.foldl (fun n b => n * 256 + b.toNat) 1)⟩
  signMessage _ _ message := some ⟨message.odd, message.x + 1⟩
  verifyMessage _ _ _ _ := true

def sampleKeyset : KeySet where
  id := .v1 1
  unit := .sat
  active := true
  inputFeePpk := 0
  amounts := [1, 2, 4, 8]

def sampleProof (amount : Amount) (secret : String) : Proof :=
  ⟨amount, .v1 1, secret, ⟨false, 0⟩, none⟩

def sampleMessage (amount : Amount) (x : BitVec 256) : BlindedMessage :=
  ⟨amount, .v1 1, ⟨false, x⟩⟩

/-- A swap of one proof of eight for one output of eight. -/
def sampleSwap : SwapRequest :=
  ⟨[sampleProof 8 "a"], [sampleMessage 8 5]⟩

/-- The state after the first transaction of the example. -/
def sampleReserved : SwapSetup × Db :=
  (startSwap sampleEnv [sampleKeyset] 0 7 sampleSwap Db.empty).getD (⟨0, [], []⟩, Db.empty)

theorem startSwap_sample :
    startSwap sampleEnv [sampleKeyset] 0 7 sampleSwap Db.empty = .ok sampleReserved := by
  decide +kernel

instance (before after : Db) : Decidable (Restored before after) :=
  inferInstanceAs (Decidable (_ ∧ _ ∧ _))

/-- A failing commit of the second transaction returns an error and leaves the input pending
and the output reserved. -/
theorem finishSwap_commit_not_restored :
    startSwap sampleEnv [sampleKeyset] 0 7 sampleSwap Db.empty = .ok sampleReserved ∧
      (finishSwap sampleEnv [sampleKeyset] (some (.commitFinalize, .database .database))
        sampleReserved.1 sampleReserved.2).1 = .err (.database .database) ∧
      ¬ Restored Db.empty
        (finishSwap sampleEnv [sampleKeyset] (some (.commitFinalize, .database .database))
          sampleReserved.1 sampleReserved.2).2 := by
  decide +kernel

theorem finishSwap_restores_iff_sample :
    (∃ e, (finishSwap sampleEnv [sampleKeyset] (some (.addBlindSignatures, .internal))
        sampleReserved.1 sampleReserved.2).1 = .err e) ∧
      (Restored Db.empty (finishSwap sampleEnv [sampleKeyset]
          (some (.addBlindSignatures, .internal)) sampleReserved.1 sampleReserved.2).2 ↔
        SwapStep.addBlindSignatures ≠ .beginFinalize ∧
          SwapStep.addBlindSignatures ≠ .commitFinalize) :=
  finishSwap_restores_iff sampleEnv [sampleKeyset] [sampleKeyset] 0 7 sampleSwap sampleReserved.1
    Db.empty sampleReserved.2 .addBlindSignatures .internal startSwap_sample (by decide)
    fun _ => ⟨[⟨8, .v1 1, ⟨false, 6⟩⟩], by decide +kernel⟩

end Cdk
