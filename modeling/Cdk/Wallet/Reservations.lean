import Cdk.Wallet.ExactProofs
import Cdk.Wallet.Send

/-!
# Failing behind a reservation

A swap, a melt and a send set the states of their proofs in the store before
their last fallible step. An error behind that leaves the proofs reserved or
pending, and nothing resets them.
-/

namespace Cdk

open Lib

namespace Wallet

/-! ## States -/

namespace Store

/-- The states of the stored proofs. -/
def states (s : Store) : List (PublicKey × State) :=
  s.proofs.rows.map fun info => (info.y, info.state)

/-- The stored proofs of the points have the state already. -/
def Marked (ys : List PublicKey) (state : State) (s : Store) : Prop :=
  ∀ info ∈ s.proofs.rows, info.y ∈ ys → info.state = state

/-- Setting the states of proofs has no effect exactly if they have the state already. -/
theorem states_updateProofsState {ys : List PublicKey} {state : State} {s : Store} :
    (s.updateProofsState ys state).states = s.states ↔ s.Marked ys state := by
  rw [states, states, updateProofsState, Table.update_rows, List.map_map, List.map_inj_left]
  apply forall₂_congr
  intro info _
  rw [Function.comp_apply]
  split
  next hmem =>
    constructor
    · intro h _
      exact (congrArg Prod.snd h).symm
    · intro h
      exact Prod.ext rfl (h hmem).symm
  next hmem => simp [hmem]

end Store

section Keeps

variable (w : Wallet)

/-- Behind its reservation a swap changes no state. -/
theorem keeps_behindReserving (call : SwapCall) (id : Id) (proofsTotal : Amount) :
    Proc.Keeps Store.states (w.behindReserving call id proofsTotal) :=
  (keeps_proofs_behindReserving w call id proofsTotal).comp fun proofs =>
    proofs.rows.map fun info : ProofInfo => (info.y, info.state)

/-- Once its proofs are pending a melt changes no state before its request. -/
theorem keeps_behindPending (quoteId : String) (proofs : List Proof) (quote : MeltQuoteInfo)
    (proofsTotal : Amount) :
    Proc.Keeps Store.states (w.behindPending quoteId proofs quote proofsTotal) :=
  (keeps_proofs_behindPending w quoteId proofs quote proofsTotal).comp fun proofs =>
    proofs.rows.map fun info : ProofInfo => (info.y, info.state)

end Keeps

/-! ## Failing splits -/

section Splits

variable {ε : Type} {denominations parts : List Amount} {amount : Amount}
  {target : Counters.SplitTarget} {rounds fee : Nat}

@[simp] theorem not_fails_split :
    ¬ (amount.split denominations : Outcome ε (List Amount)).Fails := by
  unfold Amount.split
  split <;> simp

@[simp] theorem not_fails_add {a b : Amount} : ¬ (a.add b : Outcome ε Amount).Fails :=
  Outcome.not_fails_expect

@[simp] theorem not_fails_sub {a b : Amount} : ¬ (a.sub b : Outcome ε Amount).Fails :=
  Outcome.not_fails_expect

theorem not_fails_addValueParts {acc : List Amount × Amount} (hacc : WithinAmount amount acc) :
    ¬ (Counters.addValueParts amount denominations parts acc).Fails := by
  induction parts generalizing acc with
  | nil => exact Outcome.not_fails_ok _
  | cons part rest ih =>
      obtain ⟨soFar, partsTotal⟩ := acc
      obtain ⟨htotal, hle⟩ := hacc
      dsimp only at htotal hle
      have hlater {more : List Amount} (hwithin : Amount.total more ≤ amount.toNat) :
          ¬ (Outcome.ofOption Counters.Error.amountOverflow (Amount.trySum more) >>=
            fun partsTotal => if partsTotal = amount then .ok (more, partsTotal)
            else Counters.addValueParts amount denominations rest (more, partsTotal)).Fails := by
        have hsome : Amount.trySum more = some ⟨Amount.total more, by have := amount.isLt; omega⟩ :=
          Amount.trySum_eq_some.mpr rfl
        rw [hsome, Outcome.ofOption_some, Outcome.bind_ok]
        split
        · exact Outcome.not_fails_ok _
        · exact ih ⟨rfl, hwithin⟩
      rw [Counters.addValueParts, Outcome.fails_bind]
      rintro (h | ⟨next, hnext, h⟩)
      · exact not_fails_add h
      · simp only [Amount.add, Outcome.expect_eq_ok, Amount.checkedAdd_eq_some] at hnext
        split at h
        next hfits =>
          have hfits : next.toNat ≤ amount.toNat := hfits
          apply hlater _ h
          rw [Amount.total_append, Amount.total_cons, Amount.total_nil]
          omega
        next =>
          rw [Outcome.fails_bind, or_iff_right not_fails_sub] at h
          obtain ⟨left, hleft, h⟩ := h
          rw [Outcome.fails_bind, or_iff_right not_fails_split] at h
          obtain ⟨others, hothers, h⟩ := h
          simp only [Amount.sub, Outcome.expect_eq_ok, Amount.checkedSub_eq_some] at hleft
          have hsplit := Amount.total_split_le hothers
          apply hlater _ h
          rw [Amount.total_append]
          omega

theorem not_fails_fillValue {partsOfValue : List Amount} {acc : List Amount × Amount}
    (hacc : WithinAmount amount acc) :
    ¬ (Counters.fillValue amount denominations partsOfValue rounds acc).Fails := by
  induction rounds generalizing acc with
  | zero => exact Outcome.not_fails_panic
  | succ rounds ih =>
      rw [Counters.fillValue]
      split
      · rw [Outcome.fails_bind]
        rintro (h | ⟨next, hnext, h⟩)
        · exact not_fails_addValueParts hacc h
        · exact ih (withinAmount_addValueParts hacc hnext) h
      · exact Outcome.not_fails_ok _

/-- A split by a target fails only for values that exceed the amount. -/
theorem fails_splitTargeted :
    (Counters.splitTargeted rounds amount target ⟨fee, denominations⟩).Fails ↔
      ∃ values, target = .values values ∧ amount.toNat < Amount.total values := by
  cases target with
  | none => simp [Counters.splitTargeted, Outcome.fails_bind]
  | value value =>
      have hfill (partsOfValue : List Amount) :
          ¬ (Counters.fillValue amount denominations partsOfValue rounds ([], .zero)).Fails :=
        not_fails_fillValue ⟨rfl, Nat.zero_le _⟩
      rw [Counters.splitTargeted]
      split
      · simp
      · simp [Outcome.fails_bind, hfill]
  | values values =>
      rw [Counters.splitTargeted, Outcome.fails_bind, Outcome.fails_ofOption]
      have hlt := amount.isLt
      simp only [Counters.SplitTarget.values.injEq, exists_eq_left', Outcome.ofOption_eq_ok]
      by_cases hfits : Amount.total values < 2 ^ 64
      · have hsome : Amount.trySum values = some ⟨Amount.total values, hfits⟩ :=
          Amount.trySum_eq_some.mpr rfl
        simp only [hsome, reduceCtorEq, Option.some.injEq, exists_eq_left', false_or]
        change _ ↔ amount < ⟨Amount.total values, hfits⟩
        split_ifs with hless heq
        · simp [hless]
        · simp [hless]
        · simp [hless, Outcome.fails_bind]
      · have hnone : Amount.trySum values = none := by
          apply Option.eq_none_iff_forall_ne_some.mpr
          intro sum hsum
          have := Amount.trySum_eq_some.mp hsum
          have := sum.isLt
          omega
        simp only [hnone, true_or, true_iff]
        omega

/-- A round of the loop of `determine_split_target_values`. -/
def addTargetValue (change : Amount) (values : List Amount) (amount : Amount) :
    Outcome Counters.Error (List Amount) := do
  let valuesSum ← Outcome.ofOption .amountOverflow (Amount.trySum values)
  let next ← valuesSum.add amount
  .ok (if next ≤ change then values ++ [amount] else values)

theorem addTargetValue_spec {change : Amount} {values : List Amount}
    (hvalues : Amount.total values ≤ change.toNat) :
    ¬ (addTargetValue change values amount).Fails ∧
      ∀ more, addTargetValue change values amount = .ok more →
        Amount.total more ≤ change.toNat := by
  have hsome : Amount.trySum values = some ⟨Amount.total values, by have := change.isLt; omega⟩ :=
    Amount.trySum_eq_some.mpr rfl
  rw [addTargetValue, hsome, Outcome.ofOption_some, Outcome.bind_ok]
  constructor
  · simp [Outcome.fails_bind]
  · intro more h
    simp only [Outcome.bind_eq_ok, Amount.add, Outcome.expect_eq_ok, Amount.checkedAdd_eq_some] at h
    obtain ⟨next, hnext, h⟩ := h
    cases h
    split
    next hle =>
      have hle : next.toNat ≤ change.toNat := hle
      rw [Amount.total_append, Amount.total_cons, Amount.total_nil]
      omega
    next => exact hvalues

/-- The values for the state stay within the change. -/
theorem foldlM_addTargetValue {change : Amount} {needed values : List Amount}
    (hvalues : Amount.total values ≤ change.toNat) :
    ¬ (needed.foldlM (addTargetValue change) values).Fails ∧
      ∀ last, needed.foldlM (addTargetValue change) values = .ok last →
        Amount.total last ≤ change.toNat := by
  induction needed generalizing values with
  | nil =>
      refine ⟨Outcome.not_fails_ok _, fun last h => ?_⟩
      cases h
      exact hvalues
  | cons amount rest ih =>
      obtain ⟨hfails, hmore⟩ := @addTargetValue_spec amount change values hvalues
      rw [List.foldlM_cons, Outcome.fails_bind]
      constructor
      · rintro (h | ⟨more, h, hrest⟩)
        · exact hfails h
        · exact (ih (hmore more h)).1 hrest
      · intro last h
        rw [Outcome.bind_eq_ok] at h
        obtain ⟨more, h, hrest⟩ := h
        exact (ih (hmore more h)).2 last hrest

theorem not_fails_determineSplitTargetValues {needed : List Amount} {change : Amount} :
    ¬ (Counters.determineSplitTargetValues needed change).Fails := by
  rw [Counters.determineSplitTargetValues, Outcome.fails_bind]
  rintro (h | ⟨values, -, h⟩)
  · exact (foldlM_addTargetValue (Nat.zero_le _)).1 h
  · exact Outcome.not_fails_ok _ h

theorem determineSplitTargetValues_eq_ok {needed : List Amount} {change : Amount}
    (h : Counters.determineSplitTargetValues needed change = .ok target) :
    ∃ values, target = .values values ∧ Amount.total values ≤ change.toNat := by
  rw [Counters.determineSplitTargetValues, Outcome.bind_eq_ok] at h
  obtain ⟨values, hvalues, h⟩ := h
  cases h
  exact ⟨values, rfl, (foldlM_addTargetValue (Nat.zero_le _)).2 values hvalues⟩

end Splits

/-! ## What fails behind a reservation -/

/-- A keyset of the proofs is not stored, or their fee overflows. -/
def Uncharged (keysets : Keysets) (proofs : List Proof) : Prop :=
  (∃ p ∈ proofs, keysets.info p.keysetId = none) ∨ 2 ^ 64 ≤ charged keysets proofs + 999

section Causes

variable (w : Wallet) (call : SwapCall) (id : Id) (proofsTotal : Amount) (s : Store)

/-- The amounts that a swap has worked out when it chooses the target of its change. -/
structure Planned (feeAndAmounts : Counters.FeeAndAmounts) (sendAmount : Option Amount)
    (change : Amount) : Prop where
  known : w.getKeysetFeesAndAmountsById id = .ok feeAndAmounts
  left : ∃ fee before, w.getProofsFee call.proofs = .ok fee ∧
    changeAmount call.amount proofsTotal fee = .ok before ∧
    w.sendAndChange call.includeFees id call.amount before feeAndAmounts = .ok (sendAmount, change)

/-- Why a swap fails once its proofs are reserved: their fee is not known, they are not worth the
amount and the fee, the active keyset is not known, its fee for redeeming is not known or not
covered, the values of the target exceed the change, or a secret cannot be derived. -/
inductive SwapFails : Prop
  | fee (h : Uncharged w.keysets call.proofs)
  | funds {fee : Amount} (hfee : w.getProofsFee call.proofs = .ok fee)
      (h : proofsTotal.toNat < (call.amount.getD .zero).toNat + fee.toNat)
  | keyset {fee : Amount} (hfee : w.getProofsFee call.proofs = .ok fee)
      (hfunds : (call.amount.getD .zero).toNat + fee.toNat ≤ proofsTotal.toNat)
      (h : (w.getKeysetFeesAndAmountsById id).Fails)
  | redeemFee {fee : Amount} {feeAndAmounts : Counters.FeeAndAmounts}
      (hfee : w.getProofsFee call.proofs = .ok fee)
      (hfunds : (call.amount.getD .zero).toNat + fee.toNat ≤ proofsTotal.toNat)
      (hknown : w.getKeysetFeesAndAmountsById id = .ok feeAndAmounts)
      (hincluded : call.includeFees = true) (hpos : ∀ d ∈ feeAndAmounts.amounts, 0 < d.toNat)
      (h : w.keysets.info id = none)
  | redeemFunds {fee redeem : Amount} {feeAndAmounts : Counters.FeeAndAmounts}
      (hfee : w.getProofsFee call.proofs = .ok fee)
      (hfunds : (call.amount.getD .zero).toNat + fee.toNat ≤ proofsTotal.toNat)
      (hknown : w.getKeysetFeesAndAmountsById id = .ok feeAndAmounts)
      (hincluded : call.includeFees = true)
      (hredeem : w.feeToRedeem id call.amount feeAndAmounts = .ok redeem)
      (h : proofsTotal.toNat < (call.amount.getD .zero).toNat + fee.toNat + redeem.toNat)
  | values {feeAndAmounts : Counters.FeeAndAmounts} {sendAmount : Option Amount} {change : Amount}
      {values : List Amount}
      (hplanned : Planned w call id proofsTotal feeAndAmounts sendAmount change)
      (hpos : call.conditions = none → ∀ d ∈ feeAndAmounts.amounts, 0 < d.toNat)
      (htarget : call.target = .values values) (h : change.toNat < Amount.total values)
  | secrets {feeAndAmounts : Counters.FeeAndAmounts} {sendAmount : Option Amount} {change : Amount}
      {target : Counters.SplitTarget} {needed start : Nat} {s' : Store}
      (hplanned : Planned w call id proofsTotal feeAndAmounts sendAmount change)
      (htarget : w.changeSplitTarget call.target change feeAndAmounts s = .ok target)
      (hneeded : w.totalSecretsNeeded call.conditions sendAmount change target feeAndAmounts =
        .ok needed)
      (hstart : reserveCounter id needed s = (.ok start, s'))
      (h : (w.desiredMessages call.conditions id start sendAmount change target
        feeAndAmounts).Fails)

/-- Why a melt fails once its proofs are pending: there is no active keyset, a secret for the change
cannot be derived, or the method of the quote is not supported. -/
inductive MeltFails (quote : MeltQuoteInfo) (proofsTotal : Amount) (s : Store) : Prop
  | keyset (h : w.fetchActiveKeyset.Fails)
  | secrets {id : Id} {change : Amount} (hid : w.fetchActiveKeyset = .ok id)
      (hchange : change.toNat + quote.amount.toNat = proofsTotal.toNat)
      (h : (w.blankPreMints id change).Fails s)
  | method {id : Id} {change : Amount} {preMints : List PreMint} {s' : Store} {name : String}
      (hid : w.fetchActiveKeyset = .ok id)
      (hchange : change.toNat + quote.amount.toNat = proofsTotal.toNat)
      (hpreMints : w.blankPreMints id change s = (.ok preMints, s'))
      (h : quote.paymentMethod = .custom name)

end Causes

section Failing

variable {w : Wallet} {call : SwapCall} {id : Id} {s : Store}

theorem getProofsFee_ne_panic {keysets : Keysets} {proofs : List Proof} :
    Cdk.getProofsFee keysets proofs ≠ .panic := by
  rw [Cdk.getProofsFee, Outcome.bind_ne_panic]
  refine ⟨Outcome.forM_ne_panic fun p _ => ?_, fun _ _ => ?_⟩
  · rw [Outcome.bind_ne_panic]
    exact ⟨Outcome.ofOption_ne_panic _ _, fun _ _ h => by cases h⟩
  · rw [calculateFee, Outcome.bind_ne_panic]
    refine ⟨Outcome.foldlM_ne_panic (fun sum fee _ => ?_) 0, fun sum _ => ?_⟩
    · simp [Cdk.addFee, Outcome.bind_ne_panic]
    · simp [Outcome.bind_ne_panic]

theorem fails_getProofsFee {proofs : List Proof} :
    (w.getProofsFee proofs).Fails ↔ Uncharged w.keysets proofs := by
  rw [getProofsFee, Outcome.fails_mapErr, Outcome.fails_iff getProofsFee_ne_panic, Uncharged]
  simp only [ne_eq, getProofsFee_eq_ok, calculateFee_eq_ok]
  constructor
  · intro h
    by_contra hnot
    obtain ⟨hknown, hlt⟩ := not_or.mp hnot
    refine h ⟨(charged w.keysets proofs + 999) / 1000, by omega⟩ ⟨fun p hp => ?_, by omega, rfl⟩
    exact Option.isSome_iff_ne_none.mpr fun hnone => hknown ⟨p, hp, hnone⟩
  · rintro (⟨p, hp, hnone⟩ | hover) fee ⟨hknown, hlt, -⟩
    · have := hknown p hp
      rw [hnone] at this
      cases this
    · omega

/-- The change is what the amount and the fee leave. -/
theorem fails_changeAmount {amount : Option Amount} {proofsTotal fee : Amount} :
    (changeAmount amount proofsTotal fee).Fails ↔
      proofsTotal.toNat < (amount.getD .zero).toNat + fee.toNat := by
  rw [changeAmount, Outcome.fails_bind, Outcome.fails_ofOption, Amount.checkedAdd_eq_none]
  simp only [Outcome.ofOption_eq_ok, Amount.checkedAdd_eq_some, Outcome.fails_ofOption,
    Amount.checkedSub_eq_none]
  have := proofsTotal.isLt
  constructor
  · rintro (hover | ⟨toSubtract, hsum, hless⟩)
    · omega
    · omega
  · intro hless
    by_cases hover : 2 ^ 64 ≤ (amount.getD .zero).toNat + fee.toNat
    · exact .inl hover
    · exact .inr ⟨⟨(amount.getD .zero).toNat + fee.toNat, Nat.lt_of_not_le hover⟩, rfl, hless⟩

theorem exists_changeAmount {amount : Option Amount} {proofsTotal fee : Amount}
    (h : (amount.getD .zero).toNat + fee.toNat ≤ proofsTotal.toNat) :
    ∃ change, changeAmount amount proofsTotal fee = .ok change := by
  have hlt := proofsTotal.isLt
  let toSubtract : Amount := ⟨(amount.getD .zero).toNat + fee.toNat, h.trans_lt hlt⟩
  let change : Amount := ⟨proofsTotal.toNat - toSubtract.toNat, (Nat.sub_le _ _).trans_lt hlt⟩
  have hsum : (amount.getD .zero).checkedAdd fee = some toSubtract :=
    Amount.checkedAdd_eq_some.mpr rfl
  have hsub : proofsTotal.checkedSub toSubtract = some change :=
    Amount.checkedSub_eq_some.mpr (Nat.sub_add_cancel h)
  exact ⟨change, by rw [changeAmount, hsum, Outcome.ofOption_some, Outcome.bind_ok, hsub]; rfl⟩

/-- Without a target the split returns unless a denomination is zero. -/
theorem exists_splitTargeted_none {amount : Amount} {feeAndAmounts : Counters.FeeAndAmounts} :
    (∃ parts, w.splitTargeted amount .none feeAndAmounts = .ok parts) ↔
      ∀ d ∈ feeAndAmounts.amounts, 0 < d.toNat := by
  simp only [splitTargeted, Outcome.mapErr_eq_ok, Counters.splitTargeted, Outcome.bind_eq_ok]
  constructor
  · rintro ⟨_, parts, hparts, -⟩ d hd
    apply Nat.pos_of_ne_zero
    intro hzero
    rw [Amount.split, if_pos (List.any_eq_true.mpr ⟨d, hd, decide_eq_true hzero⟩)] at hparts
    cases hparts
  · intro hpos
    exact ⟨_, _, Amount.split_eq _ hpos, rfl⟩

theorem fails_feeToRedeem {amount : Option Amount} {feeAndAmounts : Counters.FeeAndAmounts} :
    (w.feeToRedeem id amount feeAndAmounts).Fails ↔
      (∀ d ∈ feeAndAmounts.amounts, 0 < d.toNat) ∧ w.keysets.info id = none := by
  rw [← @exists_splitTargeted_none w (amount.getD .zero), feeToRedeem]
  split
  next parts hsplit =>
    simp only [hsplit, Outcome.ok.injEq, exists_eq', true_and]
    rw [getKeysetCountFee, Outcome.fails_mapErr, CountedFees.getKeysetCountFee, Outcome.fails_bind,
      Outcome.fails_ofOption, inputFeePpk, Option.map_eq_none_iff, or_iff_left_iff_imp]
    rintro ⟨ppk, -, h⟩
    rw [CountedFees.wrapping_mul, Outcome.bind_ok] at h
    exact absurd h Outcome.not_fails_expect
  next hsplit =>
    constructor
    · intro h
      exact absurd h Outcome.not_fails_panic
    · rintro ⟨⟨parts, hparts⟩, -⟩
      exact absurd hparts (hsplit parts)

theorem fails_sendAndChange {includeFees : Bool} {amount : Option Amount}
    {change proofsTotal fee : Amount} {feeAndAmounts : Counters.FeeAndAmounts}
    (hchange : changeAmount amount proofsTotal fee = .ok change) :
    (w.sendAndChange includeFees id amount change feeAndAmounts).Fails ↔
      includeFees = true ∧
        ((∀ d ∈ feeAndAmounts.amounts, 0 < d.toNat) ∧ w.keysets.info id = none ∨
          ∃ redeem, w.feeToRedeem id amount feeAndAmounts = .ok redeem ∧
            proofsTotal.toNat < (amount.getD .zero).toNat + fee.toNat + redeem.toNat) := by
  have hleft := changeAmount_spec hchange
  unfold sendAndChange
  cases includeFees with
  | false => simp
  | true =>
      rw [if_pos rfl, Outcome.fails_bind, fails_feeToRedeem, and_iff_right rfl]
      apply or_congr_right
      apply exists_congr
      intro redeem
      apply and_congr_right
      intro _
      simp only [Outcome.fails_bind, Outcome.fails_ofOption, Amount.checkedSub_eq_none,
        Outcome.not_fails_ok, and_false, exists_false, or_false]
      have := proofsTotal.isLt
      cases amount with
      | none =>
          change Outcome.Fails (.ok none) ∨ (∃ sent, Outcome.ok none = .ok sent ∧ _) ↔ _
          simp only [Outcome.not_fails_ok, Outcome.ok.injEq, exists_eq_left', false_or]
          omega
      | some a =>
          change Outcome.Fails (Outcome.ofOption _ (a.checkedAdd redeem) >>= fun more =>
            .ok (some more)) ∨ (∃ sent, (Outcome.ofOption _ (a.checkedAdd redeem) >>= fun more =>
              .ok (some more)) = .ok sent ∧ _) ↔ _
          simp only [Outcome.fails_bind, Outcome.fails_ofOption, Amount.checkedAdd_eq_none,
            Outcome.not_fails_ok, and_false, exists_false, or_false, Outcome.bind_eq_ok,
            Outcome.ofOption_eq_ok, Amount.checkedAdd_eq_some, Outcome.ok.injEq]
          change change.toNat + (a.toNat + fee.toNat) = _ at hleft
          change _ ↔ proofsTotal.toNat < a.toNat + fee.toNat + redeem.toNat
          constructor
          · rintro (hover | ⟨_, -, hless⟩)
            · omega
            · omega
          · intro hless
            by_cases hover : 2 ^ 64 ≤ a.toNat + redeem.toNat
            · exact .inl hover
            · refine .inr ⟨_, ⟨⟨a.toNat + redeem.toNat, Nat.lt_of_not_le hover⟩, rfl, rfl⟩, ?_⟩
              omega

theorem not_fails_changeSplitTarget {target : Counters.SplitTarget} {change : Amount}
    {feeAndAmounts : Counters.FeeAndAmounts} :
    ¬ (w.changeSplitTarget target change feeAndAmounts s).Fails := by
  cases target with
  | none =>
      rw [changeSplitTarget, Outcome.fails_mapErr]
      exact not_fails_determineSplitTargetValues
  | value _ => exact Outcome.not_fails_ok _
  | values _ => exact Outcome.not_fails_ok _

/-- The values of the target for the change exceed it only if the swap was called with them. -/
theorem exceeds_changeSplitTarget {passed target : Counters.SplitTarget} {change : Amount}
    {feeAndAmounts : Counters.FeeAndAmounts}
    (h : w.changeSplitTarget passed change feeAndAmounts s = .ok target) :
    (∃ values, target = .values values ∧ change.toNat < Amount.total values) ↔
      ∃ values, passed = .values values ∧ change.toNat < Amount.total values := by
  cases passed with
  | none =>
      rw [changeSplitTarget, Outcome.mapErr_eq_ok] at h
      obtain ⟨values, rfl, hle⟩ := determineSplitTargetValues_eq_ok h
      simp [hle]
  | value _ =>
      cases h
      rfl
  | values _ =>
      cases h
      rfl

theorem fails_totalSecretsNeeded {conditions : Option SpendingConditions}
    {sendAmount : Option Amount} {change : Amount} {target : Counters.SplitTarget}
    {feeAndAmounts : Counters.FeeAndAmounts} :
    (w.totalSecretsNeeded conditions sendAmount change target feeAndAmounts).Fails ↔
      (conditions = none → ∀ d ∈ feeAndAmounts.amounts, 0 < d.toNat) ∧
        ∃ values, target = .values values ∧ change.toNat < Amount.total values := by
  obtain ⟨fee, denominations⟩ := feeAndAmounts
  have hchange : (w.splitTargeted change target ⟨fee, denominations⟩).Fails ↔
      ∃ values, target = .values values ∧ change.toNat < Amount.total values := by
    rw [splitTargeted, Outcome.fails_mapErr]
    exact fails_splitTargeted
  cases conditions with
  | some conditions =>
      simp [totalSecretsNeeded, Outcome.fails_bind, hchange]
  | none =>
      have hsend :
          ¬ (w.splitTargeted (sendAmount.getD .zero) .none ⟨fee, denominations⟩).Fails := by
        rw [splitTargeted, Outcome.fails_mapErr, fails_splitTargeted]
        rintro ⟨values, hvalues, -⟩
        cases hvalues
      have hadd (a b : Nat) : ¬ ((Counters.addCounter a b).mapErr Error.amounts).Fails := by
        rw [Outcome.fails_mapErr, Counters.addCounter, Outcome.fails_mapErr, addU32]
        split
        · exact Outcome.not_fails_ok _
        · exact Outcome.not_fails_panic
      rw [← @exists_splitTargeted_none w (sendAmount.getD .zero)]
      simp only [totalSecretsNeeded, Outcome.fails_bind, hsend, hadd, and_false, exists_false,
        or_false, false_or, hchange, forall_const]
      rw [exists_and_right]

theorem not_fails_incrementKeysetCounter {count : Nat} :
    ¬ (Proc.transact (Store.incrementKeysetCounter id count)).Fails s := by
  rw [Proc.fails_transact, Store.incrementKeysetCounter]
  rintro ⟨e, h⟩
  split at h
  · cases h
  · cases h

theorem not_fails_reserveCounter {needed : Nat} : ¬ (reserveCounter id needed).Fails s := by
  unfold reserveCounter
  split
  · rw [Proc.fails_bind]
    rintro (h | ⟨_, _, -, h⟩)
    · exact not_fails_incrementKeysetCounter h
    · exact Proc.not_fails_pure _ h
  · exact Proc.not_fails_pure _

/-- What a swap does once its amounts are worked out. -/
def behindAmounts (w : Wallet) (call : SwapCall) (id : Id) (fee : Amount)
    (feeAndAmounts : Counters.FeeAndAmounts) (sendAmount : Option Amount) (change : Amount)
    (target : Counters.SplitTarget) : Proc Store Error PreSwap := do
  let needed ← .lift (w.totalSecretsNeeded call.conditions sendAmount change target feeAndAmounts)
  let start ← reserveCounter id needed
  let (messages, derivedSecretCount) ← .lift (w.desiredMessages call.conditions id start sendAmount
    change target feeAndAmounts)
  let preMints := sortSecrets messages
  pure
    { keysetId := id
      preMints := preMints
      swapRequest := ⟨call.proofs, preMints.map PreMint.blindedMessage⟩
      derivedSecretCount := derivedSecretCount
      fee := fee }

theorem fails_of_planned {proofsTotal change : Amount} {feeAndAmounts : Counters.FeeAndAmounts}
    {sendAmount : Option Amount} {target : Counters.SplitTarget}
    (hplanned : Planned w call id proofsTotal feeAndAmounts sendAmount change)
    (htarget : w.changeSplitTarget call.target change feeAndAmounts s = .ok target)
    (h : ∀ fee, (behindAmounts w call id fee feeAndAmounts sendAmount change target).Fails s) :
    (w.behindReserving call id proofsTotal).Fails s := by
  obtain ⟨hknown, fee, before, hfee, hbefore, hsend⟩ := hplanned
  apply Proc.fails_of_lift hfee
  apply Proc.fails_of_lift hbefore
  apply Proc.fails_of_lift hknown
  apply Proc.fails_of_lift hsend
  exact Proc.fails_read_bind.mpr (.inr ⟨_, htarget, h fee⟩)

/-- A swap fails behind its reservation exactly for one of the reasons. -/
theorem fails_behindReserving {proofsTotal : Amount} :
    (w.behindReserving call id proofsTotal).Fails s ↔ SwapFails w call id proofsTotal s := by
  have hfunds {fee change : Amount}
      (hchange : changeAmount call.amount proofsTotal fee = .ok change) :
      (call.amount.getD .zero).toNat + fee.toNat ≤ proofsTotal.toNat := by
    have := changeAmount_spec hchange
    omega
  unfold behindReserving
  constructor
  · rw [Proc.fails_lift_bind, fails_getProofsFee]
    rintro (h | ⟨fee, hfee, h⟩)
    · exact .fee h
    rw [Proc.fails_lift_bind, fails_changeAmount] at h
    rcases h with h | ⟨change, hchange, h⟩
    · exact .funds hfee h
    rw [Proc.fails_lift_bind] at h
    rcases h with h | ⟨feeAndAmounts, hknown, h⟩
    · exact .keyset hfee (hfunds hchange) h
    rw [Proc.fails_lift_bind, fails_sendAndChange hchange] at h
    rcases h with ⟨hincluded, ⟨hpos, h⟩ | ⟨redeem, hredeem, h⟩⟩ | ⟨⟨sendAmount, left⟩, hsend, h⟩
    · exact .redeemFee hfee (hfunds hchange) hknown hincluded hpos h
    · exact .redeemFunds hfee (hfunds hchange) hknown hincluded hredeem h
    have hplanned : Planned w call id proofsTotal feeAndAmounts sendAmount left :=
      ⟨hknown, fee, change, hfee, hchange, hsend⟩
    dsimp only at h
    rw [Proc.fails_read_bind, or_iff_right not_fails_changeSplitTarget] at h
    obtain ⟨target, htarget, h⟩ := h
    rw [Proc.fails_lift_bind, fails_totalSecretsNeeded, exceeds_changeSplitTarget htarget] at h
    rcases h with ⟨hpos, values, hvalues, h⟩ | ⟨needed, hneeded, h⟩
    · exact .values hplanned hpos hvalues h
    rw [Proc.fails_bind, or_iff_right not_fails_reserveCounter] at h
    obtain ⟨start, s', hstart, h⟩ := h
    rw [Proc.fails_lift_bind] at h
    rcases h with h | ⟨messages, -, h⟩
    · exact .secrets hplanned htarget hneeded hstart h
    · exact absurd h (Proc.not_fails_pure _)
  · intro h
    cases h with
    | fee h => exact Proc.fails_lift_bind.mpr (.inl (fails_getProofsFee.mpr h))
    | funds hfee h =>
        apply Proc.fails_of_lift hfee
        exact Proc.fails_lift_bind.mpr (.inl (fails_changeAmount.mpr h))
    | keyset hfee hfunds h =>
        obtain ⟨change, hchange⟩ := exists_changeAmount hfunds
        apply Proc.fails_of_lift hfee
        apply Proc.fails_of_lift hchange
        exact Proc.fails_lift_bind.mpr (.inl h)
    | redeemFee hfee hfunds hknown hincluded hpos h =>
        obtain ⟨change, hchange⟩ := exists_changeAmount hfunds
        apply Proc.fails_of_lift hfee
        apply Proc.fails_of_lift hchange
        apply Proc.fails_of_lift hknown
        refine Proc.fails_lift_bind.mpr (.inl ((fails_sendAndChange hchange).mpr ?_))
        exact ⟨hincluded, .inl ⟨hpos, h⟩⟩
    | redeemFunds hfee hfunds hknown hincluded hredeem h =>
        obtain ⟨change, hchange⟩ := exists_changeAmount hfunds
        apply Proc.fails_of_lift hfee
        apply Proc.fails_of_lift hchange
        apply Proc.fails_of_lift hknown
        refine Proc.fails_lift_bind.mpr (.inl ((fails_sendAndChange hchange).mpr ?_))
        exact ⟨hincluded, .inr ⟨_, hredeem, h⟩⟩
    | values hplanned hpos htarget h =>
        have hchosen {change : Amount} {feeAndAmounts : Counters.FeeAndAmounts} :
            w.changeSplitTarget call.target change feeAndAmounts s = .ok call.target := by
          rw [htarget]
          rfl
        refine fails_of_planned hplanned hchosen fun fee => ?_
        exact Proc.fails_lift_bind.mpr
          (.inl (fails_totalSecretsNeeded.mpr ⟨hpos, _, htarget, h⟩))
    | secrets hplanned htarget hneeded hstart h =>
        refine fails_of_planned hplanned htarget fun fee => ?_
        apply Proc.fails_of_lift hneeded
        refine Proc.fails_bind.mpr (.inr ⟨_, _, hstart, ?_⟩)
        exact Proc.fails_lift_bind.mpr (.inl h)

/-- A melt fails before its request exactly for one of the reasons. -/
theorem fails_behindPending {quoteId : String} {proofs : List Proof} {quote : MeltQuoteInfo}
    {proofsTotal : Amount} :
    (w.behindPending quoteId proofs quote proofsTotal).Fails s ↔
      MeltFails w quote proofsTotal s := by
  have hsub {change : Amount} :
      (proofsTotal.sub quote.amount : Outcome Error Amount) = .ok change ↔
        change.toNat + quote.amount.toNat = proofsTotal.toNat := by
    rw [Amount.sub, Outcome.expect_eq_ok, Amount.checkedSub_eq_some]
  unfold behindPending
  constructor
  · rw [Proc.fails_lift_bind]
    rintro (h | ⟨id, hid, h⟩)
    · exact .keyset h
    rw [Proc.fails_lift_bind, or_iff_right not_fails_sub] at h
    obtain ⟨change, hchange, h⟩ := h
    rw [Proc.fails_bind] at h
    rcases h with h | ⟨preMints, s', hpreMints, h⟩
    · exact .secrets hid (hsub.mp hchange) h
    · cases hmethod : quote.paymentMethod with
      | custom name => exact .method hid (hsub.mp hchange) hpreMints hmethod
      | bolt11 =>
          rw [hmethod] at h
          exact absurd h (Proc.not_fails_pure _)
      | bolt12 =>
          rw [hmethod] at h
          exact absurd h (Proc.not_fails_pure _)
  · intro h
    cases h with
    | keyset h => exact Proc.fails_lift_bind.mpr (.inl h)
    | secrets hid hchange h =>
        apply Proc.fails_of_lift hid
        apply Proc.fails_of_lift (hsub.mpr hchange)
        exact Proc.fails_bind.mpr (.inl h)
    | method hid hchange hpreMints h =>
        apply Proc.fails_of_lift hid
        apply Proc.fails_of_lift (hsub.mpr hchange)
        refine Proc.fails_bind.mpr (.inr ⟨_, _, hpreMints, ?_⟩)
        rw [h]
        exact Outcome.fails_err _

/-- Preparing fails behind its reservation exactly if the fee of the proofs to swap is not known. -/
theorem fails_finishPreparing {order feeOrder : Selection.HashOrder} {amount : Amount}
    {opts : SendOptions} {plan : SendPlan}
    (hplan : w.planSend order feeOrder amount opts s = .ok plan) :
    (w.finishPreparing amount opts plan).Fails ↔
      amount.toNat + plan.sendFee.toNat < 2 ^ 64 ∧
        Uncharged w.keysets (plan.parted amount opts).2 := by
  obtain ⟨_, _, _, hselected⟩ := selectForSend_spec (planSend_spec hplan).1
  obtain ⟨proofsTotal, htotal⟩ := hselected.summed
  cases hsum : amount.checkedAdd plan.sendFee with
  | none =>
      have hadd : amount.add plan.sendFee = (.panic : Outcome Error Amount) := by
        rw [Amount.add, hsum]
        rfl
      have hover := Amount.checkedAdd_eq_none.mp hsum
      rw [finishPreparing, htotal, Outcome.bind_ok, hadd]
      exact iff_of_false Outcome.not_fails_panic fun h => absurd h.1 (Nat.not_lt_of_le hover)
  | some exactTotal =>
      have hadd : amount.add plan.sendFee = (.ok exactTotal : Outcome Error Amount) := by
        rw [Amount.add, hsum]
        rfl
      have hexact := Amount.checkedAdd_eq_some.mp hsum
      rw [finishPreparing_eq htotal hadd, Outcome.fails_bind, fails_getProofsFee]
      have := exactTotal.isLt
      constructor
      · rintro (h | ⟨_, -, h⟩)
        · exact ⟨by omega, h⟩
        · exact absurd h (Outcome.not_fails_ok _)
      · rintro ⟨-, h⟩
        exact .inl h

end Failing

/-! ## Errors and states -/

section Undone

variable (w : Wallet) (s : Store)

/-- None of the reasons of a swap for failing occurs behind the reservation, or the stored ones of
its proofs are reserved already. -/
def SwapUndone (call : SwapCall) : Prop :=
  ∀ id proofsTotal ys, w.beforeReserving call = .ok (id, proofsTotal, ys) →
    ¬ SwapFails w call id proofsTotal (s.updateProofsState ys .reserved) ∨ s.Marked ys .reserved

/-- None of the reasons of a melt for failing occurs once its proofs are pending, or the stored ones
of them are pending already. -/
def MeltUndone (quoteInfo : Option MeltQuoteInfo) (now : Nat) (proofs : List Proof) : Prop :=
  ∀ quote proofsTotal ys, w.beforePending quoteInfo now proofs = .ok (quote, proofsTotal, ys) →
    ¬ MeltFails w quote proofsTotal (s.updateProofsState ys .pending) ∨ s.Marked ys .pending

/-- The fee of the proofs that a send has to swap is known, or the sum of the amount and its fee
panics, or the stored ones of its proofs are reserved already. -/
def SendUndone (order feeOrder : Selection.HashOrder) (amount : Amount) (opts : SendOptions) :
    Prop :=
  ∀ plan, w.planSend order feeOrder amount opts s = .ok plan →
    ¬ (amount.toNat + plan.sendFee.toNat < 2 ^ 64 ∧
        Uncharged w.keysets (plan.parted amount opts).2) ∨
      s.Marked plan.ys .reserved

theorem undoneOnErr_createSwap (call : SwapCall) :
    Proc.UndoneOnErr Store.states (w.createSwap call) s ↔ SwapUndone w s call := by
  apply Iff.trans (@Proc.undoneOnErr_iff _ _ _ _ _ _ s Store.states
    (fun _ => w.beforeReserving call)
    (fun entry => Store.updateProofsState entry.2.2 .reserved)
    fun entry => keeps_behindReserving w call entry.1 entry.2.1)
  simp only [Store.states_updateProofsState, fails_behindReserving, Prod.forall, SwapUndone]

theorem undoneOnErr_meltProofs (quoteId : String) (quoteInfo : Option MeltQuoteInfo) (now : Nat)
    (proofs : List Proof) :
    Proc.UndoneOnErr Store.states (w.meltProofs quoteId quoteInfo now proofs) s ↔
      MeltUndone w s quoteInfo now proofs := by
  apply Iff.trans (@Proc.undoneOnErr_iff _ _ _ _ _ _ s Store.states
    (fun _ => w.beforePending quoteInfo now proofs)
    (fun entry => Store.updateProofsState entry.2.2 .pending)
    fun entry => keeps_behindPending w quoteId proofs entry.1 entry.2.1)
  simp only [Store.states_updateProofsState, fails_behindPending, Prod.forall, MeltUndone]

theorem undoneOnErr_prepareSend (order feeOrder : Selection.HashOrder) (amount : Amount)
    (opts : SendOptions) :
    Proc.UndoneOnErr Store.states (w.prepareSend order feeOrder amount opts) s ↔
      SendUndone w s order feeOrder amount opts := by
  apply Iff.trans (@Proc.undoneOnErr_iff _ _ _ _ _ _ s Store.states
    (w.planSend order feeOrder amount opts)
    (fun plan => Store.updateProofsState plan.ys .reserved)
    fun plan => Proc.Keeps.lift (w.finishPreparing amount opts plan))
  apply forall₂_congr
  intro plan hplan
  rw [Store.states_updateProofsState, Proc.Fails, Proc.lift_run, fails_finishPreparing hplan]

/-- For every wallet and store: a swap, a melt before its request, or the preparation of a send that
returns an error leaves the states of all proofs as they were exactly under its condition. -/
theorem statesKept_iff :
    (∀ call, Proc.UndoneOnErr Store.states (w.createSwap call) s ↔ SwapUndone w s call) ∧
      (∀ quoteId quoteInfo now proofs,
        Proc.UndoneOnErr Store.states (w.meltProofs quoteId quoteInfo now proofs) s ↔
          MeltUndone w s quoteInfo now proofs) ∧
      ∀ order feeOrder amount opts,
        Proc.UndoneOnErr Store.states (w.prepareSend order feeOrder amount opts) s ↔
          SendUndone w s order feeOrder amount opts :=
  ⟨undoneOnErr_createSwap w s, undoneOnErr_meltProofs w s, undoneOnErr_prepareSend w s⟩

/-! ### A wallet with one proof -/

/-- An unspent proof of eight, whose keyset is not the active one. -/
def eightInfo : ProofInfo :=
  ⟨⟨⟨8, .v1 2, "a", ⟨false, 0⟩, none⟩, none⟩, ⟨false, 1⟩, "https://mint.example", .unspent, none,
    .sat⟩

def eightStore : Store := ⟨⟨[eightInfo], List.nodup_singleton _⟩, fun _ => 0⟩

/-- A swap of too much, a melt by an unsupported method and a send of a proof of an unknown keyset
return errors, and the proof stays reserved or pending. -/
theorem not_statesKept :
    ¬ Proc.UndoneOnErr Store.states ((sampleWallet 0 (by decide)).createSwap
        ⟨some 9, .none, [inputProof 8 "a"], none, false⟩) eightStore ∧
      ¬ Proc.UndoneOnErr Store.states ((sampleWallet 0 (by decide)).meltProofs "quote"
        (some ⟨8, 0, 1, .custom "method"⟩) 0 [inputProof 8 "a"]) eightStore ∧
      ¬ Proc.UndoneOnErr Store.states ((sampleWallet 0 (by decide)).prepareSend
        Selection.insertionOrder Selection.insertionOrder 4 ⟨none, .onlineExact, false, none⟩)
          eightStore := by
  refine ⟨fun h => ?_, fun h => ?_, fun h => ?_⟩
  · exact absurd (h ⟨.cdk .insufficientFunds, by decide +kernel⟩) (by decide +kernel)
  · exact absurd (h ⟨.cdk .unsupportedPaymentMethod, by decide +kernel⟩) (by decide +kernel)
  · exact absurd (h ⟨.cdk .unknownKeySet, by decide +kernel⟩) (by decide +kernel)

end Undone

end Wallet

end Cdk
