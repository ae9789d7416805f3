import Cdk.Lib.Grouping
import Cdk.Mint.Database

/-!
# Queries of the mint

A wallet asks for the states of proofs and for the signatures on blinded
messages. The rows of all that is asked for come back in any order, and the
answers are taken out of a map of them one after the other, so that what is
asked for twice is answered once.
-/

namespace Cdk

open Lib

/-- The proof of a row. -/
def ProofRow.toProof (r : ProofRow) : Proof := ⟨r.amount, r.keysetId, r.secret, r.c, r.witness⟩

/-- The signature of a row that has one, `sql_row_to_blind_signature`. -/
def SignatureRow.signature (r : SignatureRow) : Option BlindSignature :=
  r.c.map fun c => ⟨r.amount, r.keysetId, c⟩

namespace Db

/-! ## Queries of the database -/

/-- `get_current_states`. -/
def currentStates (ys : List PublicKey) (db : Db) : List (PublicKey × State) :=
  if ys = [] then [] else selectKeys db.proofs (fun r => some r.state) ys

/-- `get_proofs_states`. -/
def getProofsStates (ys : List PublicKey) (db : Db) : List (Option State) :=
  removeEach (currentStates ys db) ys

/-- `get_proofs_by_ys`. -/
def getProofsByYs (ys : List PublicKey) (db : Db) : List (Option Proof) :=
  removeEach (selectKeys db.proofs (fun r => some r.toProof) ys) ys

/-- `get_blind_signatures`, which selects the rows with a signature. -/
def getBlindSignatures (blindedMessages : List PublicKey) (db : Db) :
    List (Option BlindSignature) :=
  removeEach (selectKeys db.blindSignatures SignatureRow.signature blindedMessages) blindedMessages

/-- The state of a stored proof. -/
def storedState (db : Db) (y : PublicKey) : Option State :=
  (db.proofs.find? y).map ProofRow.state

/-- The stored signature on a message. -/
def storedSignature (db : Db) (message : PublicKey) : Option BlindSignature :=
  (db.blindSignatures.find? message).bind SignatureRow.signature

section Lookups

variable {db : Db} {ys messages : List PublicKey}

theorem storedState_eq (db : Db) (y : PublicKey) :
    db.storedState y = (db.proofs.find? y).bind fun r => some r.state := Option.map_eq_bind

/-- What is made of the states that are found. -/
theorem zipWith_getProofsStates_iff {γ : Type} {f : PublicKey → Option State → γ} :
    ys.zipWith f (getProofsStates ys db) = ys.map (fun y => f y (db.storedState y)) ↔
      ∀ y, 1 < ys.count y → f y (db.storedState y) = f y none := by
  rw [getProofsStates, currentStates]
  split
  next h =>
    subst h
    simp
  next =>
    simp only [storedState_eq]
    exact zipWith_selectKeys_iff

theorem length_getProofsStates (ys : List PublicKey) (db : Db) :
    (getProofsStates ys db).length = ys.length := length_removeEach _ _

theorem not_repeated {y other : PublicKey} : ¬ 1 < [y].count other := by
  have hle := List.count_le_length (a := other) (l := [y])
  rw [List.length_singleton] at hle
  omega

theorem zipWith_snd {α β : Type} {xs : List α} {ys : List β} (h : xs.length = ys.length) :
    xs.zipWith (fun _ y => y) ys = ys := by
  induction xs generalizing ys with
  | nil => rw [List.eq_nil_of_length_eq_zero h.symm, List.zipWith_nil_left]
  | cons x xs ih =>
      cases ys with
      | nil => cases h
      | cons y ys => rw [List.zipWith_cons_cons, ih (Nat.succ_injective h)]

theorem getProofsByYs_singleton (y : PublicKey) (db : Db) :
    getProofsByYs [y] db = [(db.proofs.find? y).map ProofRow.toProof] := by
  have hlength : [y].length = (getProofsByYs [y] db).length := (length_removeEach _ _).symm
  rw [← zipWith_snd hlength, Option.map_eq_bind]
  exact zipWith_selectKeys_iff.mpr fun _ h => absurd h not_repeated

theorem getBlindSignatures_eq_iff : getBlindSignatures messages db =
    messages.map db.storedSignature ↔
      ∀ message, 1 < messages.count message → db.storedSignature message = none := by
  have hlength : messages.length = (getBlindSignatures messages db).length :=
    (length_removeEach _ _).symm
  rw [← zipWith_snd hlength]
  exact zipWith_selectKeys_iff

end Lookups

end Db

/-! ## Queries of the mint -/

structure RestoreResponse where
  outputs : List BlindedMessage
  signatures : List BlindSignature
  promises : Option (List BlindSignature)
deriving DecidableEq, Repr

namespace Mint

/-- An entry of `CheckStateResponse`. -/
structure ProofState where
  y : PublicKey
  state : State
  witness : Option Witness
deriving DecidableEq, Repr

/-- The answer for one point, whose witness is only looked up for a state. -/
def proofState (db : Db) (y : PublicKey) (state : Option State) : ProofState :=
  let witness :=
    if state.isSome then ((db.getProofsByYs [y]).head?.join).bind Proof.witness else none
  ⟨y, state.getD .unspent, witness⟩

/-- `Mint::check_state`. -/
def checkState (ys : List PublicKey) (db : Db) : Outcome Error (List ProofState) :=
  let states := db.getProofsStates ys
  if ys.length = states.length then .ok (ys.zipWith (proofState db) states) else .panic

/-- The outputs with an answer, and their answers: the loop of `Mint::restore`. -/
def signedOutputs (outputs : List BlindedMessage) (answers : List (Option BlindSignature)) :
    List (BlindedMessage × BlindSignature) :=
  (outputs.zip answers).filterMap fun entry => entry.2.map fun signature => (entry.1, signature)

/-- `Mint::restore`. -/
def restore (outputs : List BlindedMessage) (db : Db) : Outcome Error RestoreResponse :=
  let blindSignatures := db.getBlindSignatures (outputs.map BlindedMessage.blindedSecret)
  if blindSignatures.length = outputs.length then
    let signed := signedOutputs outputs blindSignatures
    let signatures := signed.map Prod.snd
    .ok ⟨signed.map Prod.fst, signatures, some signatures⟩
  else .panic

end Mint

namespace StateQueries

open Mint (checkState proofState restore signedOutputs)

/-! ## Answers for each element -/

/-- One entry for each point in order, with its stored state or `Unspent`, and the same entries as
for each point alone. -/
structure StatesPointwise (ys : List PublicKey) (db : Db) : Prop where
  returned : ∃ response, checkState ys db = .ok response ∧ response.map Mint.ProofState.y = ys ∧
    response.map Mint.ProofState.state = ys.map fun y => (db.storedState y).getD .unspent
  alone : checkState ys db = List.flatten <$> ys.mapM fun y => checkState [y] db

/-- The stored signature of each message in order, as for each message alone. -/
structure SignaturesPointwise (messages : List PublicKey) (db : Db) : Prop where
  returned : db.getBlindSignatures messages = messages.map db.storedSignature
  alone : db.getBlindSignatures messages =
    messages.flatMap fun message => db.getBlindSignatures [message]

/-- Each output with a stored signature in order, as for each output alone. -/
structure RestoresPointwise (outputs : List BlindedMessage) (db : Db) : Prop where
  returned : ∃ response, restore outputs db = .ok response ∧
    response.outputs.zip response.signatures = outputs.filterMap (fun output =>
      (db.storedSignature output.blindedSecret).map fun signature => (output, signature))
  alone : ∃ responses, outputs.mapM (fun output => restore [output] db) = .ok responses ∧
    restore outputs db = .ok ⟨responses.flatMap RestoreResponse.outputs,
      responses.flatMap RestoreResponse.signatures,
      some (responses.flatMap RestoreResponse.signatures)⟩

/-- A loop that answers each element as a function does. -/
theorem mapM_eq_ok {α β : Type} {f : α → Outcome Error β} {g : α → β} (h : ∀ x, f x = .ok (g x))
    (xs : List α) : xs.mapM f = .ok (xs.map g) := by
  induction xs with
  | nil => rfl
  | cons x xs ih =>
      rw [List.mapM_cons, h, Outcome.bind_ok, ih, Outcome.bind_ok, Outcome.pure_eq, List.map_cons]

section States

variable {ys : List PublicKey} {db : Db}

theorem checkState_eq (ys : List PublicKey) (db : Db) :
    checkState ys db = .ok (ys.zipWith (proofState db) (db.getProofsStates ys)) :=
  if_pos (Db.length_getProofsStates ys db).symm

theorem checkState_singleton (y : PublicKey) (db : Db) :
    checkState [y] db = .ok [proofState db y (db.storedState y)] := by
  rw [checkState_eq, Db.zipWith_getProofsStates_iff.mpr fun _ h => absurd h Db.not_repeated]
  rfl

theorem checkState_alone_iff :
    checkState ys db = List.flatten <$> ys.mapM (fun y => checkState [y] db) ↔
      ∀ y, 1 < ys.count y → proofState db y (db.storedState y) = proofState db y none := by
  have halone : (List.flatten <$> ys.mapM fun y => checkState [y] db) =
      .ok (ys.map fun y => proofState db y (db.storedState y)) := by
    rw [mapM_eq_ok fun y => checkState_singleton y db]
    change Outcome.ok _ = _
    rw [← List.flatMap_def, ← List.map_eq_flatMap]
  rw [halone, checkState_eq, Outcome.ok.injEq, Db.zipWith_getProofsStates_iff]

/-- A stored point is answered as an absent one if it is unspent and has no witness. -/
theorem proofState_eq_none_iff (y : PublicKey) :
    proofState db y (db.storedState y) = proofState db y none ↔
      ∀ row, db.proofs.find? y = some row → row.state = .unspent ∧ row.witness = none := by
  unfold proofState Db.storedState
  rw [Db.getProofsByYs_singleton]
  cases db.proofs.find? y with
  | none => simp
  | some row => simp [ProofRow.toProof]

theorem statesPointwise_iff :
    StatesPointwise ys db ↔ ∀ y, 1 < ys.count y → ∀ row, db.proofs.find? y = some row →
      row.state = .unspent ∧ row.witness = none := by
  simp only [← proofState_eq_none_iff]
  rw [← checkState_alone_iff]
  refine ⟨StatesPointwise.alone, fun h => ⟨⟨_, checkState_eq ys db, ?_, ?_⟩, h⟩⟩
  · rw [checkState_alone_iff] at h
    rw [Db.zipWith_getProofsStates_iff.mpr h, List.map_map]
    exact List.map_id ys
  · rw [checkState_alone_iff] at h
    rw [Db.zipWith_getProofsStates_iff.mpr h, List.map_map]
    rfl

end States

section Signatures

variable {messages : List PublicKey} {outputs : List BlindedMessage} {db : Db}

theorem getBlindSignatures_singleton (message : PublicKey) (db : Db) :
    db.getBlindSignatures [message] = [db.storedSignature message] :=
  Db.getBlindSignatures_eq_iff.mpr fun _ hrepeated => absurd hrepeated Db.not_repeated

theorem signaturesPointwise_iff :
    SignaturesPointwise messages db ↔
      ∀ message, 1 < messages.count message → db.storedSignature message = none := by
  rw [← Db.getBlindSignatures_eq_iff]
  refine ⟨SignaturesPointwise.returned, fun h => ⟨h, ?_⟩⟩
  simp only [getBlindSignatures_singleton, h]
  exact List.map_eq_flatMap

end Signatures

section Restores

variable {outputs : List BlindedMessage} {answers values : List (Option BlindSignature)} {db : Db}

theorem signedOutputs_cons (output : BlindedMessage) (answer : Option BlindSignature) :
    signedOutputs (output :: outputs) (answer :: answers) =
      (answer.map fun signature => (output, signature)).toList ++ signedOutputs outputs answers := by
  unfold signedOutputs
  rw [List.zip_cons_cons, List.filterMap_cons]
  cases answer <;> rfl

theorem signedOutputs_map (f : BlindedMessage → Option BlindSignature) :
    signedOutputs outputs (outputs.map f) =
      outputs.filterMap fun output => (f output).map fun signature => (output, signature) := by
  induction outputs with
  | nil => rfl
  | cons output rest ih =>
      rw [List.map_cons, signedOutputs_cons, ih, List.filterMap_cons]
      cases f output <;> rfl

/-- Fewer answers sign fewer outputs. -/
theorem length_signedOutputs_le
    (h : List.Forall₂ (fun answer value => answer = none ∨ answer = value) answers values) :
    (signedOutputs outputs answers).length ≤ (signedOutputs outputs values).length := by
  induction h generalizing outputs with
  | nil => exact Nat.le_refl _
  | @cons answer value _ _ hfirst _ ih =>
      cases outputs with
      | nil => exact Nat.le_refl _
      | cons output rest =>
          rw [signedOutputs_cons, signedOutputs_cons, List.length_append, List.length_append]
          refine Nat.add_le_add ?_ ih
          rcases hfirst with rfl | rfl
          · exact Nat.zero_le _
          · exact Nat.le_refl _

/-- Answers that sign the same outputs lack none. -/
theorem eq_of_signedOutputs_eq (hlength : outputs.length = answers.length)
    (h : List.Forall₂ (fun answer value => answer = none ∨ answer = value) answers values)
    (heq : signedOutputs outputs answers = signedOutputs outputs values) : answers = values := by
  induction h generalizing outputs with
  | nil => rfl
  | @cons answer value _ _ hfirst hrest ih =>
      cases outputs with
      | nil => cases hlength
      | cons output rest =>
          have hrestLength := Nat.succ_injective hlength
          rw [signedOutputs_cons, signedOutputs_cons] at heq
          rcases hfirst with rfl | rfl
          · cases value with
            | none => rw [ih hrestLength (List.append_cancel_left heq)]
            | some signature =>
                have hshort : (signedOutputs rest _).length ≤ (signedOutputs rest _).length :=
                  length_signedOutputs_le hrest
                have hsame := congrArg List.length heq
                rw [Option.map_none, Option.map_some, Option.toList_none, Option.toList_some,
                  List.nil_append, List.length_append, List.length_singleton] at hsame
                omega
          · rw [ih hrestLength (List.append_cancel_left heq)]

/-- The response on the outputs that are signed. -/
def responseOf (signed : List (BlindedMessage × BlindSignature)) : RestoreResponse :=
  ⟨signed.map Prod.fst, signed.map Prod.snd, some (signed.map Prod.snd)⟩

theorem length_getBlindSignatures (outputs : List BlindedMessage) (db : Db) :
    (db.getBlindSignatures (outputs.map BlindedMessage.blindedSecret)).length = outputs.length :=
  (length_removeEach _ _).trans (List.length_map _)

theorem restore_eq (outputs : List BlindedMessage) (db : Db) :
    restore outputs db = .ok (responseOf (signedOutputs outputs
      (db.getBlindSignatures (outputs.map BlindedMessage.blindedSecret)))) :=
  if_pos (length_getBlindSignatures outputs db)

theorem zip_responseOf (signed : List (BlindedMessage × BlindSignature)) :
    (responseOf signed).outputs.zip (responseOf signed).signatures = signed := by
  unfold responseOf
  rw [List.zip_map', List.map_id']

/-- The output with its stored signature, if it has one. -/
def storedOutput (db : Db) (output : BlindedMessage) : Option (BlindedMessage × BlindSignature) :=
  (db.storedSignature output.blindedSecret).map fun signature => (output, signature)

theorem restore_singleton (output : BlindedMessage) (db : Db) :
    restore [output] db = .ok (responseOf (storedOutput db output).toList) := by
  rw [restore_eq, List.map_singleton, getBlindSignatures_singleton, signedOutputs_cons]
  exact congrArg (fun signed => Outcome.ok (responseOf signed)) (List.append_nil _)

theorem flatMap_toList {α β : Type} (f : α → Option β) (xs : List α) :
    xs.flatMap (fun x => (f x).toList) = xs.filterMap f := by
  induction xs with
  | nil => rfl
  | cons x xs ih =>
      rw [List.flatMap_cons, ih, List.filterMap_cons]
      cases f x <;> rfl

theorem restoresPointwise_iff :
    RestoresPointwise outputs db ↔
      ∀ message, 1 < (outputs.map BlindedMessage.blindedSecret).count message →
        db.storedSignature message = none := by
  rw [← Db.getBlindSignatures_eq_iff, List.map_map]
  have hvalues : signedOutputs outputs (outputs.map (db.storedSignature ∘ (·.blindedSecret))) =
      outputs.filterMap (storedOutput db) := signedOutputs_map _
  constructor
  · rintro ⟨⟨response, hresponse, hzip⟩, -⟩
    rw [restore_eq] at hresponse
    cases hresponse
    rw [zip_responseOf] at hzip
    refine eq_of_signedOutputs_eq (length_getBlindSignatures outputs db).symm ?_
      (hzip.trans hvalues.symm)
    have hall := forall₂_selectKeys db.blindSignatures SignatureRow.signature
      (outputs.map BlindedMessage.blindedSecret)
    rw [List.map_map] at hall
    exact hall
  · intro h
    have hrestore : restore outputs db =
        .ok (responseOf (outputs.filterMap (storedOutput db))) := by
      rw [restore_eq, h]
      exact congrArg (fun signed => Outcome.ok (responseOf signed)) hvalues
    refine ⟨⟨_, hrestore, zip_responseOf _⟩,
      ⟨_, mapM_eq_ok (fun output => restore_singleton output db) outputs, ?_⟩⟩
    rw [hrestore, ← flatMap_toList, List.flatMap_map, List.flatMap_map]
    unfold responseOf
    rw [List.map_flatMap, List.map_flatMap]

end Restores

/-- Lists are answered as their elements are exactly if nothing that is stored is asked for twice,
an unspent proof without a witness apart. -/
theorem queries_pointwise_iff (ys messages : List PublicKey) (outputs : List BlindedMessage)
    (db : Db) :
    (StatesPointwise ys db ↔ ∀ y, 1 < ys.count y → ∀ row, db.proofs.find? y = some row →
      row.state = .unspent ∧ row.witness = none) ∧
    (SignaturesPointwise messages db ↔
      ∀ message, 1 < messages.count message → db.storedSignature message = none) ∧
    (RestoresPointwise outputs db ↔
      ∀ message, 1 < (outputs.map BlindedMessage.blindedSecret).count message →
        db.storedSignature message = none) :=
  ⟨statesPointwise_iff, signaturesPointwise_iff, restoresPointwise_iff⟩

/-- The row of a spent proof. -/
def spentRow (y : PublicKey) : ProofRow :=
  ⟨y, 8, .v1 1, "s", y, none, .spent, none, ⟨.swap, 0⟩⟩

/-- A mint that has seen one proof spent. -/
def spentOnce (y : PublicKey) : Db :=
  { Db.empty with proofs := ⟨[spentRow y], List.nodup_singleton _⟩ }

/-- A spent proof that is asked for twice is reported as spent and as unspent. -/
theorem not_queries_pointwise :
    (let y : PublicKey := ⟨false, 5⟩
     checkState [y, y] (spentOnce y) = .ok [⟨y, .spent, none⟩, ⟨y, .unspent, none⟩]) ∧
    ¬ ∀ (ys messages : List PublicKey) (outputs : List BlindedMessage) (db : Db),
      StatesPointwise ys db ∧ SignaturesPointwise messages db ∧ RestoresPointwise outputs db := by
  refine ⟨by decide, fun h => ?_⟩
  let y : PublicKey := ⟨false, 5⟩
  obtain ⟨hstates, -⟩ := h [y, y] [] [] (spentOnce y)
  have hunspent := statesPointwise_iff.mp hstates y (by decide) (spentRow y) (by decide)
  cases hunspent.1

end StateQueries

end Cdk
