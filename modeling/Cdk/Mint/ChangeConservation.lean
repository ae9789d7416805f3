import Cdk.Mint.MeltFailure

/-!
# Conservation of the change

The change of a melt is what its inputs are worth beyond the payment and the
input fee. It is worked out by two subtractions that panic below zero, after a
comparison of the inputs with the payment that leaves the fee out, and it is
split into at most one part of each denomination.
-/

namespace Cdk

open Lib

/-! ## Parts of an amount -/

/-- The parts of an amount, for denominations that start with the largest. -/
def splitParts : List Amount → Nat → List Amount
  | [], _ => []
  | d :: rest, left =>
      if d.toNat ≤ left then d :: splitParts rest (left % d.toNat)
      else splitParts rest (left % d.toNat)

/-- No denomination is needed twice, and nothing is left in the end. -/
def SplitsExactly : List Amount → Nat → Prop
  | [], left => left = 0
  | d :: rest, left => left < 2 * d.toNat ∧ SplitsExactly rest (left % d.toNat)

def SplitsExactly.decide : (ds : List Amount) → (left : Nat) → Decidable (SplitsExactly ds left)
  | [], left => inferInstanceAs (Decidable (left = 0))
  | d :: rest, left =>
      have := SplitsExactly.decide rest (left % d.toNat)
      inferInstanceAs (Decidable (_ ∧ _))

instance (ds : List Amount) (left : Nat) : Decidable (SplitsExactly ds left) :=
  SplitsExactly.decide ds left

theorem foldl_splitStep (ds acc : List Amount) (left : Nat) :
    (ds.foldl Amount.splitStep (acc, left)).1 = acc ++ splitParts ds left := by
  induction ds generalizing acc left with
  | nil => simp [splitParts]
  | cons d rest ih =>
      rw [List.foldl_cons, Amount.splitStep, ih, splitParts]
      dsimp only
      split
      · rw [List.append_assoc, List.singleton_append]
      · rfl

theorem Amount.split_eq {ε : Type} (a : Amount) {ds : List Amount} (hds : ∀ d ∈ ds, 0 < d.toNat) :
    (a.split ds : Outcome ε (List Amount)) = .ok (splitParts ds.reverse a.toNat) := by
  have hany : ds.any (fun d => d.toNat = 0) = false := by
    rw [List.any_eq_false]
    intro d hd h0
    exact (hds d hd).ne' (of_decide_eq_true h0)
  rw [Amount.split, hany, foldl_splitStep, List.nil_append]
  rfl

/-- The parts are worth the amount exactly if it splits exactly, and less otherwise. -/
theorem total_splitParts {ds : List Amount} (hds : ∀ d ∈ ds, 0 < d.toNat) (left : Nat) :
    Amount.total (splitParts ds left) ≤ left ∧
      (Amount.total (splitParts ds left) = left ↔ SplitsExactly ds left) := by
  induction ds generalizing left with
  | nil => simp [splitParts, SplitsExactly, eq_comm]
  | cons d rest ih =>
      obtain ⟨hd, hrest⟩ := List.forall_mem_cons.mp hds
      obtain ⟨hle, hiff⟩ := ih hrest (left % d.toNat)
      have hmod := Nat.mod_lt left hd
      rw [splitParts, SplitsExactly, ← hiff]
      split
      next hpart =>
        rw [Amount.total_cons]
        -- with one part taken, the rest is a remainder exactly below two parts
        by_cases htwo : left < 2 * d.toNat
        · have hsub : left % d.toNat = left - d.toNat := by
            rw [Nat.mod_eq_sub_mod hpart, Nat.mod_eq_of_lt (by omega)]
          omega
        · omega
      next hsmall =>
        have hsame : left % d.toNat = left := Nat.mod_eq_of_lt (Nat.lt_of_not_le hsmall)
        omega

theorem splitParts_zero {ds : List Amount} (hds : ∀ d ∈ ds, 0 < d.toNat) :
    splitParts ds 0 = [] := by
  induction ds with
  | nil => rfl
  | cons d rest ih =>
      obtain ⟨hd, hrest⟩ := List.forall_mem_cons.mp hds
      rw [splitParts, if_neg (Nat.not_le_of_lt hd), Nat.zero_mod, ih hrest]

/-- With the powers of two below a bound the amounts below the bound split exactly. -/
theorem splitsExactly_powers {n : Nat} {ds : List Amount}
    (hds : ds.map Amount.toNat = (List.range n).map (2 ^ ·)) (left : Nat) :
    SplitsExactly ds.reverse left ↔ left < 2 ^ n := by
  induction n generalizing ds left with
  | zero =>
      rw [List.range_zero, List.map_nil, List.map_eq_nil_iff] at hds
      subst hds
      simp [SplitsExactly]
  | succ n ih =>
      rw [List.range_succ, List.map_append, List.map_singleton] at hds
      obtain ⟨init, last, rfl, hinit, hlast⟩ := List.map_eq_append_iff.mp hds
      obtain ⟨d, rfl, hd⟩ := List.map_eq_singleton_iff.mp hlast
      rw [List.reverse_append, List.reverse_singleton, List.singleton_append, SplitsExactly,
        ih hinit, hd, Nat.pow_succ]
      have hmod : left % 2 ^ n < 2 ^ n := Nat.mod_lt _ (Nat.two_pow_pos n)
      omega

/-! ## Booking a payment -/

section Change

variable (env : Env) (keysets : Keysets)

/-- `Mint::process_melt_request`, the change signed between its two transactions included. -/
def bookMelt (writer : ProofWriter) (quoteId : QuoteId) (spent : Amount) (db : Db) :
    Outcome Error Unit × Db :=
  match processMeltRequest env keysets writer quoteId spent db with
  | .ok ((writer, change), db') => finishChange env keysets writer change db'
  | .err failure => failWith failure.result failure.writer db
  | .panic => (.panic, db)

/-- A request that was accepted and whose payment has not been booked. -/
structure AcceptedMelt (quoteId : QuoteId) (info : Db.MeltRequestInfo) (db : Db) : Prop
    extends Payable env quoteId db where
  inputs : ∃ r ∈ db.proofs.rows, r.quoteId = some quoteId
  info : Db.getMeltRequestAndBlindedMessages quoteId db = .ok (some info, db)

end Change

/-- The value of the inputs beyond the payment and the fee. -/
def changeTarget (info : Db.MeltRequestInfo) (spent : Amount) : Nat :=
  info.inputsAmount.toNat - spent.toNat - info.inputsFee.toNat

/-- The parts of the change, all outputs supposed. -/
def changeParts (keysets : Keysets) (info : Db.MeltRequestInfo) (spent : Amount) : List Amount :=
  splitParts (changeDenominations keysets info.changeOutputs).reverse (changeTarget info spent)

/-- Where change is asked for, it is not negative, no denomination is zero, and the change splits
exactly or there are too few outputs for its parts. -/
def ChangeFits (keysets : Keysets) (info : Db.MeltRequestInfo) (spent : Amount) : Prop :=
  spent < info.inputsAmount → info.changeOutputs ≠ [] →
    spent.toNat + info.inputsFee.toNat ≤ info.inputsAmount.toNat ∧
      (∀ d ∈ changeDenominations keysets info.changeOutputs, 0 < d.toNat) ∧
      (SplitsExactly (changeDenominations keysets info.changeOutputs).reverse
          (changeTarget info spent) ∨
        info.changeOutputs.length < (changeParts keysets info spent).length)

instance (keysets : Keysets) (info : Db.MeltRequestInfo) (spent : Amount) :
    Decidable (ChangeFits keysets info spent) := by
  unfold ChangeFits
  infer_instance

/-- Booking a payment does not panic, and the amounts that are signed for the change are worth its
value if it has no more parts than there are outputs, at most that value otherwise, and nothing if
that value is not positive. -/
structure ChangeConserved (env : Env) (keysets : Keysets) (writer : ProofWriter)
    (quoteId : QuoteId) (info : Db.MeltRequestInfo) (spent : Amount) (db : Db) : Prop where
  returns : (bookMelt env keysets writer quoteId spent db).1 ≠ .panic
  change : ∀ writer' change db', processMeltRequest env keysets writer quoteId spent db =
      .ok ((writer', some change), db') →
    if (changeParts keysets info spent).length ≤ info.changeOutputs.length then
      Amount.total (change.messages.map BlindedMessage.amount) = changeTarget info spent
    else Amount.total (change.messages.map BlindedMessage.amount) ≤ changeTarget info spent
  positive : ∀ writer' change db', processMeltRequest env keysets writer quoteId spent db =
      .ok ((writer', some change), db') → change.messages ≠ [] →
    spent.toNat + info.inputsFee.toNat < info.inputsAmount.toNat
  signed : ∀ writer' change db' signatures, processMeltRequest env keysets writer quoteId spent db =
      .ok ((writer', some change), db') → blindSign env keysets change.messages = .ok signatures →
    signatures.map BlindSignature.amount = change.messages.map BlindedMessage.amount

section Returns

variable {env : Env} {keysets : Keysets}

theorem signOne_ne_panic (message : BlindedMessage) : signOne env keysets message ≠ .panic := by
  simp [signOne, Outcome.bind_ne_panic]

theorem blindSign_ne_panic (messages : List BlindedMessage) :
    blindSign env keysets messages ≠ .panic :=
  Outcome.mapM_ne_panic fun message _ => signOne_ne_panic message

theorem storeChange_returns (change : PendingChange) (signatures : List BlindSignature) :
    Tx.Returns (storeChange change signatures) := by
  have hone : ∀ entry, Tx.Returns (Db.addBlindSignature (some change.quoteId) entry) := by
    intro entry
    refine (Tx.Returns.read _).bind fun existing => ?_
    cases existing with
    | none => exact .writeOr _ _
    | some r =>
        dsimp only
        split
        · exact .write _
        · exact .fail _
  exact (((Tx.Returns.ensure _ _).bind fun _ => .forM hone _).mapErr).bind fun _ =>
    (Tx.Returns.write _).mapErr

/-- Signing the change and storing the signatures does not panic. -/
theorem finishChange_ne_panic (writer : ProofWriter) (change : Option PendingChange) (db : Db) :
    (finishChange env keysets writer change db).1 ≠ .panic := by
  unfold finishChange
  split
  · exact nofun
  next change =>
    split
    next => exact nofun
    next hsign => exact absurd hsign (blindSign_ne_panic _)
    next signatures _ =>
      split
      next => exact nofun
      next hstore => exact absurd hstore (storeChange_returns change signatures db)
      next => exact nofun

end Returns

section Messages

variable {keysets : Keysets} {info : Db.MeltRequestInfo} {spent : Amount}

theorem map_fst_zip_take {α β : Type} (xs : List α) (ys : List β) :
    (xs.zip ys).map Prod.fst = xs.take ys.length := by
  rw [List.zip_eq_zip_take_min, List.map_fst_zip (by simp), Nat.min_comm, ← List.take_eq_take_min]

/-- The amounts of the change are worked out where nothing goes below zero. -/
theorem changeMessages_ok (hfee : spent.toNat + info.inputsFee.toNat ≤ info.inputsAmount.toNat)
    (hds : ∀ d ∈ changeDenominations keysets info.changeOutputs, 0 < d.toNat) :
    ∃ messages, changeMessages keysets info spent = .ok messages ∧
      messages.map BlindedMessage.amount =
        (if info.changeOutputs.length < (changeParts keysets info spent).length then
          (changeParts keysets info spent).mergeSort fun a b => b ≤ a
        else changeParts keysets info spent).take info.changeOutputs.length := by
  have hlt := info.inputsAmount.isLt
  obtain ⟨rest, hrest⟩ : ∃ rest, info.inputsAmount.checkedSub spent = some rest :=
    ⟨⟨info.inputsAmount.toNat - spent.toNat, by omega⟩,
      Amount.checkedSub_eq_some.mpr (Nat.sub_add_cancel (by omega))⟩
  have hrestNat := Amount.checkedSub_eq_some.mp hrest
  obtain ⟨target, htarget⟩ : ∃ target, rest.checkedSub info.inputsFee = some target :=
    ⟨⟨rest.toNat - info.inputsFee.toNat, by omega⟩,
      Amount.checkedSub_eq_some.mpr (Nat.sub_add_cancel (by omega))⟩
  have htargetNat : target.toNat = changeTarget info spent := by
    have := Amount.checkedSub_eq_some.mp htarget
    rw [changeTarget]
    omega
  have hparts := Amount.split_eq (ε := Error) target hds
  rw [htargetNat] at hparts
  have hamounts : changeAmounts keysets info spent =
      .ok (if info.changeOutputs.length < (changeParts keysets info spent).length then
        (changeParts keysets info spent).mergeSort fun a b => b ≤ a
      else changeParts keysets info spent) := by
    simp only [changeAmounts, Amount.sub, hrest, htarget, Outcome.expect, Outcome.bind_ok, hparts]
    rfl
  rw [changeMessages, hamounts, Outcome.bind_ok]
  refine ⟨_, rfl, ?_⟩
  rw [List.map_map]
  exact map_fst_zip_take _ _

/-- A fee beyond what the payment leaves, or a denomination of zero, panics. -/
theorem changeMessages_panic (hlt : spent < info.inputsAmount)
    (h : ¬ (spent.toNat + info.inputsFee.toNat ≤ info.inputsAmount.toNat ∧
      ∀ d ∈ changeDenominations keysets info.changeOutputs, 0 < d.toNat)) :
    changeMessages keysets info spent = .panic := by
  have hlt' : spent.toNat < info.inputsAmount.toNat := hlt
  have hbound := info.inputsAmount.isLt
  obtain ⟨rest, hrest⟩ : ∃ rest, info.inputsAmount.checkedSub spent = some rest :=
    ⟨⟨info.inputsAmount.toNat - spent.toNat, by omega⟩,
      Amount.checkedSub_eq_some.mpr (Nat.sub_add_cancel (by omega))⟩
  have hrestNat := Amount.checkedSub_eq_some.mp hrest
  cases htarget : rest.checkedSub info.inputsFee with
  | none =>
      simp only [changeMessages, changeAmounts, Amount.sub, hrest, htarget, Outcome.expect,
        Outcome.bind_ok, Outcome.bind_panic]
  | some target =>
      have htargetNat := Amount.checkedSub_eq_some.mp htarget
      have hzero : (changeDenominations keysets info.changeOutputs).any
          (fun d => d.toNat = 0) = true := by
        by_contra hany
        refine h ⟨by omega, fun d hd => Nat.pos_of_ne_zero fun h0 => hany ?_⟩
        exact List.any_eq_true.mpr ⟨d, hd, decide_eq_true h0⟩
      simp only [changeMessages, changeAmounts, Amount.sub, hrest, htarget, Outcome.expect,
        Outcome.bind_ok, Amount.split, hzero, if_true, Outcome.bind_panic]

end Messages

section Booking

variable {env : Env} {keysets : Keysets} {quoteId : QuoteId} {info : Db.MeltRequestInfo} {db : Db}

/-- Booking the payment of an accepted request only depends on the change. -/
theorem processMeltRequest_eq (writer : ProofWriter) (spent : Amount)
    (h : AcceptedMelt env quoteId info db) :
    ∃ writer' paid settled, processMeltRequest env keysets writer quoteId spent db =
      if spent < info.inputsAmount ∧ info.changeOutputs ≠ [] then
        guarded writer' (Tx.lift (changeMessages keysets info spent)) paid >>= fun r =>
          .ok ((writer', some ⟨quoteId, info.changeOutputs, r.1⟩), r.2)
      else .ok ((writer', none), settled) := by
  obtain ⟨ys, original, hys, hburn⟩ := burnInputs_eq writer h.toPayable
  have hne : ys ≠ [] := by
    obtain ⟨r, hr, hq⟩ := h.inputs
    rw [hys, Ne, List.map_eq_nil_iff]
    exact List.ne_nil_of_mem (List.mem_filter.mpr ⟨hr, decide_eq_true hq⟩)
  rw [if_neg hne] at hburn
  let burnt : Db :=
    { db with proofs := db.proofs.update (Db.setState ys .spent) (Db.setState_y ys .spent) }
  -- the proofs are no part of what is read from here on
  have hinfo : Db.getMeltRequestAndBlindedMessages quoteId burnt = .ok (some info, burnt) :=
    Tx.read_ok.mpr ⟨(Tx.read_ok.mp h.info).1, rfl⟩
  have hpay := @payQuote_eq keysets quoteId burnt spent info h.pending hinfo
  refine ⟨writer.record ys original, Db.withMeltState quoteId .paid burnt,
    Db.withoutMeltRequest quoteId (Db.withMeltState quoteId .paid burnt), ?_⟩
  rw [processMeltRequest, Tx.bind_of_ok hburn]
  change (guarded _ (payQuote keysets quoteId spent) burnt >>= fun r => _) = _
  rw [guarded, hpay]
  by_cases hchange : spent < info.inputsAmount ∧ info.changeOutputs ≠ []
  · rw [if_pos hchange, if_pos hchange]
    unfold guarded Tx.lift
    cases changeMessages keysets info spent <;> rfl
  · rw [if_neg hchange, if_neg hchange]
    rfl

/-- Where the change can be worked out, its amounts are those of the parts, as far as there are
outputs, the largest first if there are not enough. -/
theorem processMeltRequest_change {writer : ProofWriter} {spent : Amount}
    (h : AcceptedMelt env quoteId info db) (hlt : spent < info.inputsAmount)
    (hne : info.changeOutputs ≠ [])
    (hfee : spent.toNat + info.inputsFee.toNat ≤ info.inputsAmount.toNat)
    (hds : ∀ d ∈ changeDenominations keysets info.changeOutputs, 0 < d.toNat) :
    ∃ writer' messages paid, processMeltRequest env keysets writer quoteId spent db =
        .ok ((writer', some ⟨quoteId, info.changeOutputs, messages⟩), paid) ∧
      messages.map BlindedMessage.amount =
        (if info.changeOutputs.length < (changeParts keysets info spent).length then
          (changeParts keysets info spent).mergeSort fun a b => b ≤ a
        else changeParts keysets info spent).take info.changeOutputs.length := by
  obtain ⟨writer', paid, settled, heq⟩ := @processMeltRequest_eq env keysets quoteId info db writer
          spent h
  obtain ⟨messages, hmessages, hamounts⟩ := changeMessages_ok hfee hds
  rw [if_pos ⟨hlt, hne⟩, hmessages] at heq
  exact ⟨writer', messages, paid, heq, hamounts⟩

/-- The parts that go to the outputs are worth at most all parts, and all of them with enough
outputs. -/
theorem total_taken (parts : List Amount) (n : Nat) :
    Amount.total ((if n < parts.length then parts.mergeSort fun a b => b ≤ a else parts).take n) ≤
        Amount.total parts ∧
      (parts.length ≤ n → Amount.total
        ((if n < parts.length then parts.mergeSort fun a b => b ≤ a else parts).take n) =
          Amount.total parts) := by
  constructor
  · split
    · have hperm : Amount.total (parts.mergeSort fun a b => b ≤ a) = Amount.total parts :=
        Amount.total_perm (List.mergeSort_perm parts _)
      rw [← hperm]
      exact Amount.total_le_of_sublist (List.take_sublist n _)
    · exact Amount.total_le_of_sublist (List.take_sublist n _)
  · intro hle
    rw [if_neg (Nat.not_lt.mpr hle), List.take_of_length_le hle]

/-- A change that is conserved fits. -/
theorem ChangeConserved.fits {writer : ProofWriter} {spent : Amount}
    (h : AcceptedMelt env quoteId info db)
    (hc : ChangeConserved env keysets writer quoteId info spent db) :
    ChangeFits keysets info spent := by
  intro hlt hne
  have hboth : spent.toNat + info.inputsFee.toNat ≤ info.inputsAmount.toNat ∧
      ∀ d ∈ changeDenominations keysets info.changeOutputs, 0 < d.toNat := by
    by_contra hnot
    obtain ⟨writer', paid, settled, heq⟩ :=
      @processMeltRequest_eq env keysets quoteId info db writer spent h
    rw [if_pos ⟨hlt, hne⟩, changeMessages_panic hlt hnot] at heq
    apply hc.returns
    rw [bookMelt, heq]
    rfl
  obtain ⟨hfee, hds⟩ := hboth
  refine ⟨hfee, hds, ?_⟩
  obtain ⟨writer', messages, paid, heq, hamounts⟩ :=
    @processMeltRequest_change env keysets quoteId info db writer spent h hlt hne hfee hds
  have hchange := hc.change _ _ _ heq
  rw [hamounts] at hchange
  rcases Nat.lt_or_ge info.changeOutputs.length (changeParts keysets info spent).length with
    hfew | henough
  · exact .inr hfew
  · rw [if_pos henough, (total_taken _ _).2 henough] at hchange
    exact .inl ((total_splitParts (fun d hd => hds d (List.mem_reverse.mp hd)) _).2.mp hchange)

/-- Nothing is signed where no change is asked for. -/
theorem ChangeConserved.of_none {writer : ProofWriter} {spent : Amount}
    (h : AcceptedMelt env quoteId info db)
    (hnone : ¬ (spent < info.inputsAmount ∧ info.changeOutputs ≠ [])) :
    ChangeConserved env keysets writer quoteId info spent db := by
  obtain ⟨writer', paid, settled, heq⟩ :=
    @processMeltRequest_eq env keysets quoteId info db writer spent h
  rw [if_neg hnone] at heq
  refine ⟨?_, ?_, ?_, fun _ _ _ _ _ => blindSign_amounts⟩
  · rw [bookMelt, heq]
    exact finishChange_ne_panic _ _ _
  · intro _ _ _ heq'
    rw [heq] at heq'
    cases heq'
  · intro _ _ _ heq'
    rw [heq] at heq'
    cases heq'

/-- A change that is asked for and fits is conserved. -/
theorem ChangeConserved.of_fits {writer : ProofWriter} {spent : Amount}
    (h : AcceptedMelt env quoteId info db) (hlt : spent < info.inputsAmount)
    (hne : info.changeOutputs ≠ []) (hfits : ChangeFits keysets info spent) :
    ChangeConserved env keysets writer quoteId info spent db := by
  obtain ⟨hfee, hds, hsplit⟩ := hfits hlt hne
  have hreverse : ∀ d ∈ (changeDenominations keysets info.changeOutputs).reverse, 0 < d.toNat :=
    fun d hd => hds d (List.mem_reverse.mp hd)
  obtain ⟨writer', messages, paid, heq, hamounts⟩ :=
    @processMeltRequest_change env keysets quoteId info db writer spent h hlt hne hfee hds
  obtain ⟨hle, hexact⟩ := total_splitParts hreverse (changeTarget info spent)
  refine ⟨?_, ?_, ?_, fun _ _ _ _ _ => blindSign_amounts⟩
  · rw [bookMelt, heq]
    exact finishChange_ne_panic _ _ _
  · intro _ _ _ heq'
    rw [heq] at heq'
    cases heq'
    rw [hamounts]
    split
    next henough =>
      rw [(total_taken _ _).2 henough]
      exact hexact.mpr (hsplit.resolve_right (Nat.not_lt.mpr henough))
    next => exact (total_taken _ _).1.trans hle
  · intro _ _ _ heq' hmessages
    rw [heq] at heq'
    cases heq'
    by_contra hnot
    have hzero : changeTarget info spent = 0 := by
      rw [changeTarget]
      omega
    have hparts : changeParts keysets info spent = [] := by
      rw [changeParts, hzero, splitParts_zero hreverse]
    rw [hparts] at hamounts
    exact hmessages (by simpa using hamounts)

/-- A request that has just been reserved is accepted, with the value of its inputs. -/
theorem MeltReserved.accepted {w : World} {request : MeltRequest} {quote : MeltQuote}
    {rows : List ProofRow} {operationId : Uuid}
    (h : MeltReserved env request operationId quote rows w.db db) (hst : Stored env w)
    (hheld : Held w) : ∃ info, AcceptedMelt env quote.id info db ∧
      info.inputsAmount.toNat = Amount.total (request.inputs.map Proof.amount) := by
  obtain ⟨amount, fee, hamount, hrows⟩ := h.requests
  have hrow : db.meltRequests.find? quote.id = some ⟨request.quote, amount, fee⟩ := by
    rw [Table.find?_eq_some, hrows]
    exact ⟨List.mem_append_right _ List.mem_cons_self, h.quoteId.symm⟩
  refine ⟨⟨amount, fee, (db.blindSignatures.rows.filter (Db.reservedFor quote.id)).map fun r =>
    ⟨r.amount, r.keysetId, r.blindedMessage⟩⟩,
    ⟨h.payable hst hheld, ?_, Tx.read_ok.mpr ⟨?_, rfl⟩⟩, hamount⟩
  · obtain ⟨p, hp⟩ := List.exists_mem_of_ne_nil _ h.nonempty
    obtain ⟨r, hr, -⟩ := h.reserved.exists_row hp
    refine ⟨r, ?_, ?_⟩
    · rw [h.proofs]
      exact List.mem_append_right _ hr
    · rw [h.quoteId]
      exact (h.reserved.pending r hr).2.1
  · rw [hrow]
    rfl

end Booking

/-- For every accepted request, all its outputs and every amount that is reported as spent: the
change is conserved exactly if it fits. -/
theorem changeConserved_iff (env : Env) (keysets : Keysets) (writer : ProofWriter)
    (quoteId : QuoteId) (info : Db.MeltRequestInfo) (spent : Amount) (db : Db)
    (h : AcceptedMelt env quoteId info db) :
    ChangeConserved env keysets writer quoteId info spent db ↔ ChangeFits keysets info spent := by
  constructor
  · exact ChangeConserved.fits h
  · intro hfits
    by_cases hchange : spent < info.inputsAmount ∧ info.changeOutputs ≠ []
    · exact .of_fits h hchange.1 hchange.2 hfits
    · exact .of_none h hchange

/-- With the powers of two as denominations a change fits if it is not negative and below the next
power, or if there are too few outputs for its parts. -/
theorem changeFits_powers {keysets : Keysets} {info : Db.MeltRequestInfo} {spent : Amount} {n : Nat}
    (hds : (changeDenominations keysets info.changeOutputs).map Amount.toNat =
      (List.range n).map (2 ^ ·)) :
    ChangeFits keysets info spent ↔ (spent < info.inputsAmount → info.changeOutputs ≠ [] →
      spent.toNat + info.inputsFee.toNat ≤ info.inputsAmount.toNat ∧
        (changeTarget info spent < 2 ^ n ∨
          info.changeOutputs.length < (changeParts keysets info spent).length)) := by
  have hpos : ∀ d ∈ changeDenominations keysets info.changeOutputs, 0 < d.toNat := by
    intro d hd
    have hmem := List.mem_map_of_mem (f := Amount.toNat) hd
    rw [hds] at hmem
    obtain ⟨i, -, hi⟩ := List.mem_map.mp hmem
    exact hi ▸ Nat.two_pow_pos i
  rw [ChangeFits, splitsExactly_powers hds]
  exact forall₂_congr fun _ _ => and_congr_right fun _ => and_iff_right hpos

/-! ### A payment that costs more than the reserve -/

/-- A keyset with a fee of two for each input. -/
def feeKeyset : KeySet := { sampleKeyset with inputFeePpk := 2000 }

/-- A quote of five for an invoice of another node. -/
def feeQuote : MeltQuote :=
  ⟨.uuid 0, .sat, 5, ⟨false, "lnbc2", some (.sat, 5)⟩, .zero, .unpaid, some (.label "l2"), none,
    .bolt11⟩

def feeQuoted : World :=
  World.reached sampleEnv (fun _ _ => true) [feeKeyset] [.createMeltQuote feeQuote]

/-- A request that pays the quote with a proof of eight and asks for change. -/
def feePayment : MeltRequest := ⟨.uuid 0, [sampleProof 8 "a"], some [sampleMessage 0 5]⟩

/-- The state after the first transaction of the request. -/
def feeStarted : (ProofWriter × MeltStart) × Db :=
  (startMelt sampleEnv [feeKeyset] (fun _ _ => true) 0 1 feePayment feeQuoted.db).getD
    (([], .settled none), Db.empty)

def feeInfo : Db.MeltRequestInfo := ⟨8, 2, [sampleMessage 0 5]⟩

theorem feeStarted_accepted : AcceptedMelt sampleEnv (.uuid 0) feeInfo feeStarted.2 where
  keyed := by decide +kernel
  unspent := by decide +kernel
  pending := by decide +kernel
  request := by decide +kernel
  inputs := by decide +kernel
  info := by decide +kernel

theorem changeConserved_iff_fee :
    ChangeConserved sampleEnv [feeKeyset] feeStarted.1.1 (.uuid 0) feeInfo 5 feeStarted.2 :=
  (changeConserved_iff sampleEnv [feeKeyset] feeStarted.1.1 (.uuid 0) feeInfo 5 feeStarted.2
    feeStarted_accepted).mpr (by decide +kernel)

/-- A payment that has cost seven leaves less of eight than the fee: booking it panics. -/
theorem bookMelt_panics_below_fee :
    startMelt sampleEnv [feeKeyset] (fun _ _ => true) 0 1 feePayment feeQuoted.db =
        .ok feeStarted ∧
      AcceptedMelt sampleEnv (.uuid 0) feeInfo feeStarted.2 ∧
      (bookMelt sampleEnv [feeKeyset] feeStarted.1.1 (.uuid 0) 7 feeStarted.2).1 = .panic ∧
      ¬ ChangeConserved sampleEnv [feeKeyset] feeStarted.1.1 (.uuid 0) feeInfo 7 feeStarted.2 := by
  have hpanic : (bookMelt sampleEnv [feeKeyset] feeStarted.1.1 (.uuid 0) 7 feeStarted.2).1 =
      .panic := by
    decide +kernel
  exact ⟨by decide +kernel, feeStarted_accepted, hpanic, fun hc => hc.returns hpanic⟩

end Cdk
