import Cdk.Mint.Finality
import Cdk.Mint.Solvency

/-!
# Restoring completed swaps

A wallet that loses the answer to a swap asks for the signatures on its outputs
again. Once a swap has completed, the mint answers with a signature on each of
them, in order, over its point and its amount, whatever has happened since.
-/

namespace Cdk

open Lib

/-! ## Restoring later -/

section Restores

open StateQueries (restore_eq zip_responseOf signedOutputs_cons)

variable {db db' : Db}

/-- A stored signature stays what it is. -/
theorem Db.Extends.storedSignature (h : Db.Extends db db') {message : PublicKey}
    {signature : BlindSignature} (hs : db.storedSignature message = some signature) :
    db'.storedSignature message = some signature := by
  obtain ⟨r, hr, hsig⟩ := Option.bind_eq_some_iff.mp hs
  obtain ⟨hmem, hkey⟩ := Table.find?_eq_some.mp hr
  obtain ⟨c, hc, -⟩ := Option.map_eq_some_iff.mp hsig
  have hlater := h.signed r hmem (by rw [hc]; rfl)
  exact Option.bind_eq_some_iff.mpr ⟨r, Table.find?_eq_some.mpr ⟨hlater, hkey⟩, hsig⟩

/-- More answers sign more outputs, in the same order. -/
theorem sublist_signedOutputs {outputs : List BlindedMessage}
    {answers answers' : List (Option BlindSignature)}
    (h : List.Forall₂ (fun answer answer' => answer = none ∨ answer = answer') answers answers') :
    (Mint.signedOutputs outputs answers).Sublist (Mint.signedOutputs outputs answers') := by
  induction h generalizing outputs with
  | nil => exact List.Sublist.refl _
  | @cons answer answer' _ _ hfirst _ ih =>
      cases outputs with
      | nil => exact List.Sublist.refl _
      | cons output rest =>
          rw [signedOutputs_cons, signedOutputs_cons]
          rcases hfirst with rfl | rfl
          · exact ih.trans (List.sublist_append_right _ _)
          · exact (List.Sublist.refl _).append ih

/-- What is restored from a database is restored from one that extends it. -/
theorem Db.Extends.restore (h : Db.Extends db db') (outputs : List BlindedMessage) :
    ∃ before after, Mint.restore outputs db = .ok before ∧ Mint.restore outputs db' = .ok after ∧
      (before.outputs.zip before.signatures).Sublist (after.outputs.zip after.signatures) := by
  refine ⟨_, _, restore_eq outputs db, restore_eq outputs db', ?_⟩
  rw [zip_responseOf, zip_responseOf]
  apply sublist_signedOutputs
  apply forall₂_removeEach_of_kept
  intro message hmessage
  rw [valueOf_selectKeys _ _ hmessage, valueOf_selectKeys _ _ hmessage]
  cases hs : db.storedSignature message with
  | none => exact .inl hs
  | some signature => exact .inr (hs.trans (h.storedSignature hs).symm)

end Restores

/-- In every run, spent proofs, signed messages, paid melt quotes and recorded payments stay as they
are and no mint quote counts less than before; so what a wallet could restore at any time it can
restore later, with the same signatures. -/
theorem final_stays (env : Env) (backends : Backends) (keysets : Keysets)
    (actions later : List Action) :
    Db.Extends (World.reached env backends keysets actions).db
        (World.reached env backends keysets (actions ++ later)).db ∧
      ∀ outputs, ∃ before after,
        Mint.restore outputs (World.reached env backends keysets actions).db = .ok before ∧
        Mint.restore outputs (World.reached env backends keysets (actions ++ later)).db =
          .ok after ∧
        (before.outputs.zip before.signatures).Sublist (after.outputs.zip after.signatures) := by
  have hextends : Db.Extends (World.reached env backends keysets actions).db
      (World.reached env backends keysets (actions ++ later)).db := by
    rw [World.reached, World.reached, run_append]
    exact World.run_extends env backends _ later
  exact ⟨hextends, hextends.restore⟩

/-! ## Completed swaps -/

/-- A signature on a message by the key of its keyset and amount. -/
def Signs (env : Env) (message : BlindedMessage) (signature : BlindSignature) : Prop :=
  signature.amount = message.amount ∧
    env.signMessage message.keysetId message.amount message.blindedSecret = some signature.c

theorem blindSign_signs {env : Env} {keysets : Keysets} {messages : List BlindedMessage}
    {signatures : List BlindSignature} (h : blindSign env keysets messages = .ok signatures) :
    List.Forall₂ (Signs env) messages signatures := by
  refine (Outcome.forall₂_of_mapM h).imp fun message signature hone => ?_
  simp only [signOne, Outcome.bind_eq_ok, Outcome.ofOption_eq_ok, Outcome.ok.injEq] at hone
  obtain ⟨keyset, -, _, -, _, -, c, hc, rfl⟩ := hone
  exact ⟨rfl, hc⟩

/-- What is stored on a message. -/
def StoredOn (env : Env) (db : Db) (message : BlindedMessage) : Prop :=
  ∃ signature, db.storedSignature message.blindedSecret = some signature ∧
    Signs env message signature

theorem StoredOn.mono {env : Env} {db db' : Db} (h : Db.Extends db db')
    {message : BlindedMessage} (hs : StoredOn env db message) : StoredOn env db' message :=
  hs.imp fun _ hsig => ⟨h.storedSignature hsig.1, hsig.2⟩

theorem Db.addBlindSignature_stored {quoteId : Option QuoteId} {db db' : Db} {u : Unit}
    {entry : PublicKey × BlindSignature}
    (h : addBlindSignature quoteId entry db = .ok (u, db')) :
    ∃ signature, db'.storedSignature entry.1 = some signature ∧
      signature.amount = entry.2.amount ∧ signature.c = entry.2.c := by
  rcases addBlindSignature_ok h with ⟨t, -, hrows, rfl⟩ | ⟨r, hr, hkey, -, rfl⟩
  · refine ⟨⟨entry.2.amount, entry.2.keysetId, entry.2.c⟩, ?_, rfl, rfl⟩
    have hmem : (⟨entry.1, entry.2.amount, entry.2.keysetId, some entry.2.c, quoteId, none⟩ :
        SignatureRow) ∈ t.rows := hrows ▸ List.mem_append_right _ (List.mem_singleton_self _)
    exact Option.bind_eq_some_iff.mpr ⟨_, Table.find?_eq_some.mpr ⟨hmem, rfl⟩, rfl⟩
  · refine ⟨⟨entry.2.amount, r.keysetId, entry.2.c⟩, ?_, rfl, rfl⟩
    refine Option.bind_eq_some_iff.mpr ⟨_, Table.find?_eq_some.mpr
      ⟨List.mem_map_of_mem hr, (signRow_key _ _ r).trans hkey⟩, ?_⟩
    rw [signRow, if_pos hkey]
    rfl

/-- Signatures that are added are stored on their messages. -/
theorem Db.addBlindSignatures_stored {env : Env} {quoteId : Option QuoteId} {db db' : Db} {u : Unit}
    {messages : List BlindedMessage} {signatures : List BlindSignature}
    (hsigns : List.Forall₂ (Signs env) messages signatures)
    (h : addBlindSignatures (messages.map BlindedMessage.blindedSecret) signatures quoteId db =
      .ok (u, db')) : ∀ message ∈ messages, StoredOn env db' message := by
  have hloop := (addBlindSignatures_ok h).2
  clear h
  induction hsigns generalizing db with
  | nil => exact fun _ hm => absurd hm List.not_mem_nil
  | @cons message signature messages signatures hfirst _ ih =>
      have hbind : (addBlindSignature quoteId (message.blindedSecret, signature) >>= fun _ =>
          ((messages.map BlindedMessage.blindedSecret).zip signatures).forM
            (addBlindSignature quoteId)) db = .ok (u, db') := hloop
      rw [Tx.bind_ok] at hbind
      obtain ⟨_, mid, hone, hrest⟩ := hbind
      intro other hother
      rcases List.mem_cons.mp hother with rfl | hother
      · obtain ⟨stored, hstored, hamount, hc⟩ := addBlindSignature_stored hone
        have hkept : Extends mid db' :=
          Tx.KeepsTo.forM (addBlindSignature_extends quoteId) _ _ _ _ hrest
        exact ⟨stored, hkept.storedSignature hstored, hamount.trans hfirst.1,
          hfirst.2.trans (congrArg some hc.symm)⟩
      · exact ih hrest other hother

theorem SwapReserved.secrets_nodup {env : Env} {request : SwapRequest} {setup : SwapSetup}
    {db db' : Db} {rows : List ProofRow} (h : SwapReserved env request setup db db' rows) :
    setup.blindedSecrets.Nodup := by
  have hkeys := db'.blindSignatures.nodup
  rw [h.signatures, List.map_append] at hkeys
  have hnew := (List.nodup_append.mp hkeys).2.1
  rwa [Db.messageRows, List.map_map, ← h.messages] at hnew

/-- The steps that a swap takes. -/
def Action.ofSwap : Action → Bool
  | .setupSwap _ _ => true
  | .signSwap _ _ => true
  | .finalizeSwap _ _ => true
  | _ => false

section OtherSteps

variable (env : Env) (backends : Backends) (w : World)

/-- A melt leaves the swaps alone. -/
private theorem startMelt_swaps (now : Nat) (request : MeltRequest) (commitFails : Bool) :
    (w.startMelt env backends now request commitFails).swaps = w.swaps ∧
      (w.startMelt env backends now request commitFails).finalized = w.finalized := by
  unfold World.startMelt
  split
  next =>
    split
    next => exact ⟨rfl, rfl⟩
    next => split <;> exact ⟨rfl, rfl⟩
  next => exact ⟨rfl, rfl⟩
  next => exact ⟨rfl, rfl⟩

private theorem payMelt_swaps (task : MeltTask) (quote : MeltQuote) (backend : PaymentBackend)
    (commitFails : Bool) :
    (w.payMelt env task quote backend commitFails).swaps = w.swaps ∧
      (w.payMelt env task quote backend commitFails).finalized = w.finalized := by
  unfold World.payMelt
  split
  next =>
    unfold World.settleMelt
    split
    next => split <;> exact ⟨rfl, rfl⟩
    next => exact ⟨rfl, rfl⟩
    next => exact ⟨rfl, rfl⟩
  next => exact ⟨rfl, rfl⟩
  next => exact ⟨rfl, rfl⟩

private theorem signChange_swaps (task : MeltTask) (change : PendingChange)
    (commitFails : Bool) :
    (w.signChange env task change commitFails).swaps = w.swaps ∧
      (w.signChange env task change commitFails).finalized = w.finalized := by
  unfold World.signChange
  split
  next =>
    split
    next => split <;> exact ⟨rfl, rfl⟩
    next => exact ⟨rfl, rfl⟩
  next => exact ⟨rfl, rfl⟩

/-- Any other step keeps the swaps in memory, or drops them in a restart, and completes none. -/
theorem World.step_swaps {a : Action} (ha : a.ofSwap = false) :
    (w.step env backends a).swaps ⊆ w.swaps ∧
      (w.step env backends a).finalized = w.finalized := by
  have hsame : ∀ w' : World, w'.swaps = w.swaps ∧ w'.finalized = w.finalized →
      w'.swaps ⊆ w.swaps ∧ w'.finalized = w.finalized :=
    fun w' h => ⟨fun _ htask => h.1 ▸ htask, h.2⟩
  cases a with
  | setupSwap now request => cases ha
  | signSwap task fails => cases ha
  | finalizeSwap task fault => cases ha
  | createMintQuote quote => exact hsame _ ⟨rfl, rfl⟩
  | createMeltQuote quote => exact hsame _ ⟨rfl, rfl⟩
  | notifyPayment response => exact hsame _ ⟨rfl, rfl⟩
  | issue signing request => exact hsame _ ⟨rfl, rfl⟩
  | checkPaid quoteId answer =>
      apply hsame
      simp only [World.step, World.checkPaid]
      split <;> exact ⟨rfl, rfl⟩
  | compensate task fails =>
      apply hsame
      simp only [World.step, World.compensate]
      split
      next =>
        split
        next => exact ⟨rfl, rfl⟩
        next => split <;> exact ⟨rfl, rfl⟩
      next => exact ⟨rfl, rfl⟩
  | deleteSaga task fails =>
      apply hsame
      simp only [World.step]
      split <;> exact ⟨rfl, rfl⟩
  | startMelt now request commitFails =>
      exact hsame _ (startMelt_swaps env backends w now request commitFails)
  | payMelt task backend commitFails =>
      apply hsame
      simp only [World.step]
      split
      next quote _ =>
        split
        next => exact payMelt_swaps env w task quote backend commitFails
        next => exact ⟨rfl, rfl⟩
      next => exact ⟨rfl, rfl⟩
  | signChange task commitFails =>
      apply hsame
      simp only [World.step]
      split
      next change _ =>
        split
        next => exact signChange_swaps env w task change commitFails
        next => exact ⟨rfl, rfl⟩
      next => exact ⟨rfl, rfl⟩
  | rollback task =>
      apply hsame
      simp only [World.step]
      split <;> exact ⟨rfl, rfl⟩
  | rotateKeyset keyset =>
      apply hsame
      simp only [World.step, World.rotateKeyset]
      split <;> exact ⟨rfl, rfl⟩
  | restart check =>
      simp only [World.step, World.restart]
      split <;> exact ⟨List.nil_subset _, rfl⟩

end OtherSteps

/-- The signatures of the swaps in memory are good, and those of the completed ones are stored. -/
structure Answered (env : Env) (w : World) : Prop where
  distinct : ∀ task ∈ w.swaps, task.setup.blindedSecrets.Nodup
  signed : ∀ task ∈ w.swaps, ∀ signatures, task.signatures = some signatures →
    List.Forall₂ (Signs env) task.setup.blindedMessages signatures
  completed : ∀ setup ∈ w.finalized, setup.blindedSecrets.Nodup ∧
    ∀ message ∈ setup.blindedMessages, StoredOn env w.db message

namespace Answered

variable {env : Env} {backends : Backends} {w w' : World}

theorem init (keysets : Keysets) : Answered env (World.init keysets) where
  distinct _ htask := absurd htask List.not_mem_nil
  signed _ htask := absurd htask List.not_mem_nil
  completed _ hsetup := absurd hsetup List.not_mem_nil

/-- A step without a new or a signed swap keeps the signatures. -/
theorem of_subset (h : Answered env w) (hextends : Db.Extends w.db w'.db)
    (hswaps : w'.swaps ⊆ w.swaps) (hfinalized : w'.finalized = w.finalized) :
    Answered env w' where
  distinct task htask := h.distinct task (hswaps htask)
  signed task htask := h.signed task (hswaps htask)
  completed setup hsetup := by
    obtain ⟨hnodup, hstored⟩ := h.completed setup (hfinalized ▸ hsetup)
    exact ⟨hnodup, fun message hm => (hstored message hm).mono hextends⟩

/-- A new task for a swap whose outputs are distinct, without signatures or with good ones. -/
theorem of_task (h : Answered env w) (hextends : Db.Extends w.db w'.db) (new : SwapTask)
    (hdistinct : new.setup.blindedSecrets.Nodup)
    (hsigned : ∀ signatures, new.signatures = some signatures →
      List.Forall₂ (Signs env) new.setup.blindedMessages signatures)
    (hswaps : ∀ task ∈ w'.swaps, task ∈ w.swaps ∨ task = new)
    (hfinalized : w'.finalized = w.finalized) : Answered env w' where
  distinct task htask := by
    rcases hswaps task htask with hold | rfl
    · exact h.distinct task hold
    · exact hdistinct
  signed task htask := by
    rcases hswaps task htask with hold | rfl
    · exact h.signed task hold
    · exact hsigned
  completed := by
    have hsame : Answered env { w' with swaps := w.swaps } :=
      h.of_subset hextends (List.Subset.refl _) hfinalized
    exact hsame.completed

theorem dropSwap (h : Answered env w) (task : SwapTask) : Answered env (w.dropSwap task) :=
  h.of_subset (.refl _) List.erase_subset rfl

theorem failSwap (h : Answered env w) (task : SwapTask) : Answered env (w.failSwap task) :=
  h.of_subset (.refl _) List.erase_subset rfl

theorem setupSwap (h : Answered env w) (now : Nat) (request : SwapRequest) :
    Answered env (w.setupSwap env now request) := by
  have hextends := w.step_extends env (fun _ _ => true) (.setupSwap now request)
  simp only [World.step] at hextends
  unfold World.setupSwap at hextends ⊢
  split
  next setup db' hstart =>
    rw [hstart] at hextends
    obtain ⟨-, rows, hres⟩ := startSwap_ok hstart
    refine h.of_task hextends ⟨setup, none⟩ hres.secrets_nodup
      (fun _ hnone => by cases hnone) ?_ rfl
    exact fun task htask => (List.mem_append.mp htask).imp_right List.mem_singleton.mp
  next => exact h.of_subset (.refl _) (List.Subset.refl _) rfl

theorem signSwap (h : Answered env w) {task : SwapTask} (htask : task ∈ w.swaps) (fails : Bool) :
    Answered env (w.signSwap env task fails) := by
  unfold World.signSwap
  split
  next signatures hsign =>
    refine h.of_task (.refl _) { task with signatures := some signatures } (h.distinct task htask)
      ?_ ?_ rfl
    · intro signatures' heq
      rw [← Option.some.inj heq]
      exact blindSign_signs hsign
    · intro other hother
      exact (List.mem_append.mp hother).imp List.mem_of_mem_erase List.mem_singleton.mp
  next => exact h.dropSwap task
  next => exact h.failSwap task

/-- The swap that completes stores its signatures. -/
theorem finalizeSwap (h : Answered env w) {task : SwapTask} {signatures : List BlindSignature}
    (htask : task ∈ w.swaps) (hsigned : task.signatures = some signatures) (fault : Fault) :
    Answered env (w.finalizeSwap task signatures fault) := by
  have hextends := w.finalizeSwap_keeps Db.Extends.keptBy task signatures fault
  unfold World.finalizeSwap at hextends ⊢
  split
  next => exact h.dropSwap task
  next hbegin =>
    rw [hbegin] at hextends
    split
    next => exact h.failSwap task
    next => exact h.dropSwap task
    next stored hstore =>
      rw [hstore] at hextends
      split
      next => exact h.dropSwap task
      next hcommit =>
        simp only [hcommit] at hextends
        have hdrop : Answered env { w.dropSwap task with
            db := deleteSagaUnless (fault.at? .deleteSaga).isSome task.setup.operationId stored } :=
          h.of_subset hextends List.erase_subset rfl
        obtain ⟨⟨u, mid, hadd, hrows⟩, -⟩ := storeSwap_ok hstore
        have hmid := Db.addBlindSignatures_stored (h.signed task htask signatures hsigned) hadd
        refine ⟨hdrop.distinct, hdrop.signed, fun setup hsetup => ?_⟩
        rcases List.mem_append.mp hsetup with hold | hnew
        · exact hdrop.completed setup hold
        · rw [List.mem_singleton.mp hnew]
          refine ⟨h.distinct task htask, fun message hm => ?_⟩
          have hstored : StoredOn env stored message := by
            obtain ⟨signature, hsig, hgood⟩ := hmid message hm
            exact ⟨signature, by rw [Db.storedSignature, hrows]; exact hsig, hgood⟩
          exact hstored.mono (Db.deleteSagaUnless_extends _ _ stored)

theorem step (h : Answered env w) (a : Action) : Answered env (w.step env backends a) := by
  have hother : a.ofSwap = false → Answered env (w.step env backends a) := by
    intro ha
    obtain ⟨hswaps, hfinalized⟩ := w.step_swaps env backends ha
    exact h.of_subset (w.step_extends env backends a) hswaps hfinalized
  cases a with
  | setupSwap now request => exact h.setupSwap now request
  | signSwap task fails =>
      simp only [World.step]
      split
      next htask => exact h.signSwap htask.1 fails
      next => exact h
  | finalizeSwap task fault =>
      simp only [World.step]
      split
      next signatures hsigned =>
        split
        next htask => exact h.finalizeSwap htask hsigned fault
        next => exact h
      next => exact h
  | _ => exact hother rfl

end Answered

theorem answered_run {env : Env} {backends : Backends} (keysets : Keysets)
    (actions : List Action) : Answered env (World.reached env backends keysets actions) :=
  invariant_run (fun _ a h => h.step a) (Answered.init keysets) actions

/-- Distinct messages that all have a signature are all restored, in order. -/
theorem restore_stored {env : Env} {db : Db} {messages : List BlindedMessage}
    (hnodup : (messages.map BlindedMessage.blindedSecret).Nodup)
    (hstored : ∀ message ∈ messages, StoredOn env db message) :
    ∃ response, Mint.restore messages db = .ok response ∧ response.outputs = messages ∧
      List.Forall₂ (Signs env) messages response.signatures := by
  have hanswers : db.getBlindSignatures (messages.map BlindedMessage.blindedSecret) =
      messages.map fun message => db.storedSignature message.blindedSecret := by
    rw [Db.getBlindSignatures_eq_iff.mpr fun message hrepeated => ?_, List.map_map]
    · rfl
    · exact absurd (List.nodup_iff_count_le_one.mp hnodup message) (by omega)
  refine ⟨_, StateQueries.restore_eq messages db, ?_⟩
  rw [hanswers, StateQueries.signedOutputs_map]
  unfold StateQueries.responseOf
  clear hnodup hanswers
  induction messages with
  | nil => exact ⟨rfl, .nil⟩
  | cons message rest ih =>
      obtain ⟨signature, hsignature, hsigns⟩ := hstored message List.mem_cons_self
      obtain ⟨houtputs, hrest⟩ := ih fun m hm => hstored m (List.mem_cons_of_mem message hm)
      rw [List.filterMap_cons, hsignature]
      exact ⟨congrArg (message :: ·) houtputs, .cons hsigns hrest⟩

/-- In every run, a swap that has once completed is restored in full: the mint answers its outputs,
all of them and in order, each with a signature over its point by the key of its keyset and its
amount. -/
theorem completed_swap_restored (env : Env) (backends : Backends) (keysets : Keysets)
    (actions later : List Action) (setup : SwapSetup)
    (hcompleted : setup ∈ (World.reached env backends keysets actions).finalized) :
    ∃ response,
      Mint.restore setup.blindedMessages
          (World.reached env backends keysets (actions ++ later)).db = .ok response ∧
        response.outputs = setup.blindedMessages ∧
        List.Forall₂ (Signs env) setup.blindedMessages response.signatures := by
  obtain ⟨hnodup, hstored⟩ := (answered_run keysets actions).completed setup hcompleted
  refine restore_stored hnodup fun message hmessage => (hstored message hmessage).mono ?_
  rw [World.reached, World.reached, run_append]
  exact World.run_extends env backends _ later

/-- A swap completes after a melt of its input has been rolled back, and the mint restarts. -/
theorem completed_swap_restored_sample :
    sampleSetup ∈ (World.reached sampleEnv (fun _ _ => true) [sampleKeyset]
        sampleHonest).finalized ∧
      ∃ response, Mint.restore sampleSetup.blindedMessages
          (World.reached sampleEnv (fun _ _ => true) [sampleKeyset]
            (sampleHonest ++ [.restart fun _ => none])).db = .ok response ∧
        response.outputs = sampleSetup.blindedMessages ∧
        List.Forall₂ (Signs sampleEnv) sampleSetup.blindedMessages response.signatures := by
  have hcompleted : sampleSetup ∈ (World.reached sampleEnv (fun _ _ => true) [sampleKeyset]
      sampleHonest).finalized := by
    decide +kernel
  exact ⟨hcompleted, completed_swap_restored sampleEnv (fun _ _ => true) [sampleKeyset]
    sampleHonest [.restart fun _ => none] sampleSetup hcompleted⟩

end Cdk
