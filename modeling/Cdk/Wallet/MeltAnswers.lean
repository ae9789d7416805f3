import Cdk.Lib.Encoded
import Cdk.Nuts.Panics
import Cdk.Wallet.Swap

/-!
# Answers to a melt

When the mint has answered a melt, the wallet makes proofs of the change, works
out the fee that was paid, and exchanges the inputs for the change in its store.
It does so whatever state the answer is in. The list of blank outputs is cut to
the number of change signatures, but the signatures are not cut to the number of
blank outputs, and a fee below zero is unwrapped.
-/

namespace Cdk

open Lib

namespace Wallet

open Selection (worth)

/-- A stored melt quote with the unit of its change. -/
structure StoredMeltQuote extends MeltQuoteInfo where
  unit : CurrencyUnit
deriving DecidableEq, Repr

/-- The arguments of a melt, the quote that is stored for it and the time. -/
structure MeltCall where
  quoteId : String
  quoteInfo : Option StoredMeltQuote
  now : Nat
  proofs : List Proof

/-- `MeltQuoteBolt11Response`, as far as a melt reads it. -/
structure MeltResponse where
  state : MeltQuoteState
  paymentPreimage : Option String
  change : Option (List BlindSignature)

structure Melted where
  state : MeltQuoteState
  preimage : Option String
  change : Option (List Proof)
  amount : Amount
  feePaid : Amount
deriving DecidableEq, Repr

/-- What a melt has at hand when its request is sent. -/
structure MeltSent where
  quote : StoredMeltQuote
  keysetId : Id
  preMints : List PreMint
  request : MeltMessage
deriving DecidableEq, Repr

/-- The total of the change, if there is any. -/
def changeTotal : Option (List Proof) → Outcome Error Amount
  | some changeProofs => total changeProofs
  | none => .ok .zero

/-- `Melted::from_proofs`, whose checked subtraction is unwrapped. -/
def Melted.fromProofs (state : MeltQuoteState) (preimage : Option String) (amount : Amount)
    (proofs : List Proof) (changeProofs : Option (List Proof)) : Outcome Error Melted := do
  let proofsAmount ← total proofs
  let changeAmount ← changeTotal changeProofs
  let spent ← amount.add changeAmount
  let feePaid ← Outcome.expect (proofsAmount.checkedSub spent)
  .ok ⟨state, preimage, changeProofs, amount, feePaid⟩

section Operations

variable (w : Wallet)

/-- What a melt does once its proofs are pending, up to the request. -/
def sendBehindPending (call : MeltCall) (quote : StoredMeltQuote) (proofsTotal : Amount) :
    Proc Store Error MeltSent := do
  let activeKeysetId ← .lift w.fetchActiveKeyset
  let changeAmount ← .lift (proofsTotal.sub quote.amount)
  let preMints ← w.blankPreMints activeKeysetId changeAmount
  let request := ⟨call.quoteId, call.proofs, some (preMints.map PreMint.blindedMessage)⟩
  match quote.paymentMethod with
  | .custom _ => .lift (.err (.cdk .unsupportedPaymentMethod))
  | _ => pure ⟨quote, activeKeysetId, preMints, request⟩

/-- `Wallet::melt_proofs_with_metadata` up to the request. -/
def sendMelt (call : MeltCall) : Proc Store Error MeltSent := do
  let quote ← .lift (Outcome.ofOption (.cdk .unknownQuote) call.quoteInfo)
  let (_, proofsTotal, ys) ←
    .lift (w.beforePending (some quote.toMeltQuoteInfo) call.now call.proofs)
  Proc.write (Store.updateProofsState ys .pending)
  w.sendBehindPending call quote proofsTotal

/-- The proofs of the change. Without enough blank outputs all of them are used, for all the
signatures. -/
def meltChangeProofs (keys : Amount → Option PublicKey) (preMints : List PreMint)
    (change : Option (List BlindSignature)) : Outcome Error (Option (List Proof)) :=
  match change with
  | some change => do
      let numChangeProof :=
        if preMints.length < change.length then preMints.length else change.length
      let proofs ← w.constructProofs change ((preMints.map PreMint.r).take numChangeProof)
        ((preMints.map PreMint.secret).take numChangeProof) keys
      .ok (some proofs)
  | none => .ok none

/-- The entries of the change for the store, in the unit of the quote. -/
def meltChangeInfos (unit : CurrencyUnit) (changeProofs : Option (List Proof)) :
    Outcome Error (List ProofInfo) :=
  match changeProofs with
  | some changeProofs => do
      let _changeAmount ← total changeProofs
      changeProofs.mapM ({ w with unit := unit }.proofInfo .unspent)
  | none => .ok []

/-- `Wallet::melt_proofs_with_metadata` behind an answer, with the keys that are stored of the
keysets. -/
def finishMelt (storedKeys : Id → Option (Amount → Option PublicKey)) (proofs : List Proof)
    (sent : MeltSent) (response : MeltResponse) : Proc Store Error Melted := do
  let activeKeys ← .lift (Outcome.ofOption .noActiveKeyset (storedKeys sent.keysetId))
  let changeProofs ← .lift (w.meltChangeProofs activeKeys sent.preMints response.change)
  let melted ← .lift (Melted.fromProofs response.state response.paymentPreimage sent.quote.amount
    proofs changeProofs)
  let changeProofInfos ← .lift (w.meltChangeInfos sent.quote.unit changeProofs)
  let deletedYs ← .lift (w.ys proofs)
  Proc.write (Store.updateProofs changeProofInfos deletedYs)
  pure melted

/-- `Wallet::melt_proofs_with_metadata` where the mint gives an answer. -/
def meltProofsWithMetadata (storedKeys : Id → Option (Amount → Option PublicKey)) (call : MeltCall)
    (response : MeltResponse) : Proc Store Error Melted := do
  let sent ← w.sendMelt call
  w.finishMelt storedKeys call.proofs sent response

end Operations

/-! ## What an answer should do -/

section Safety

variable (w : Wallet)

/-- The entry that a signature makes of a blank output. -/
def changeInfo (unit : CurrencyUnit) (keys : Amount → Option PublicKey)
    (entry : BlindSignature × PreMint) : Option ProofInfo := do
  let a ← keys entry.1.amount
  let c ← w.unblind entry.1.c entry.2.r a
  let y ← w.env.hashToCurve (utf8 entry.2.secret)
  some ⟨⟨⟨entry.1.amount, entry.1.keysetId, entry.2.secret, c, none⟩, none⟩, y, w.mintUrl,
    .unspent, none, unit⟩

/-- A melt that is answered does not panic, drops inputs only if they are paid, and then stores the
change of every signature that has a blank output. -/
structure MeltSafe (storedKeys : Id → Option (Amount → Option PublicKey)) (call : MeltCall)
    (response : MeltResponse) (s : Store) : Prop where
  returns : (w.meltProofsWithMetadata storedKeys call response s).1 ≠ .panic
  inputsKept : ∀ p ∈ call.proofs, ∀ y, p.y w.env = some y → (s.proofs.find? y).isSome →
    (w.meltProofsWithMetadata storedKeys call response s).2.proofs.find? y = none →
      response.state = .paid
  changeStored : response.state = .paid → ∀ sent s₁, w.sendMelt call s = (.ok sent, s₁) →
    ∀ keys, storedKeys sent.keysetId = some keys →
      ∀ entry ∈ (response.change.getD []).zip sent.preMints, ∀ info,
        w.changeInfo sent.quote.unit keys entry = some info →
          (w.meltProofsWithMetadata storedKeys call response s).2.proofs.find? info.y = some info

/-- The amounts of the quote add up, and the counter has room for the blank outputs. -/
def RequestFits (call : MeltCall) (s : Store) : Prop :=
  ∀ quote, call.quoteInfo = some quote → call.now < quote.expiry → worth call.proofs < 2 ^ 64 →
    quote.amount.toNat + quote.feeReserve.toNat < 2 ^ 64 ∧
      (quote.amount.toNat + quote.feeReserve.toNat ≤ worth call.proofs →
        (∀ p ∈ call.proofs, (p.y w.env).isSome) → ∀ id, w.fetchActiveKeyset = .ok id →
          ∀ change : Amount, change.toNat + quote.amount.toNat = worth call.proofs →
            0 < change.toNat → s.counters id + max (w.machine.log2Ceil change) 1 < 2 ^ 32)

/-- There are no more signatures than blank outputs, each is for a key of the keyset and can be
unblinded, and their amounts have a sum. -/
structure ReadableChange (unit : CurrencyUnit) (keys : Amount → Option PublicKey)
    (preMints : List PreMint) (change : List BlindSignature) : Prop where
  length_le : change.length ≤ preMints.length
  entries : ∀ entry ∈ change.zip preMints, (w.changeInfo unit keys entry).isSome
  total_lt : Amount.total (change.map BlindSignature.amount) < 2 ^ 64

/-- An entry is none of the inputs, and no other entry has its point. -/
def Separate (unit : CurrencyUnit) (keys : Amount → Option PublicKey) (proofs : List Proof)
    (entries : List (BlindSignature × PreMint)) : Prop :=
  ∀ entry ∈ entries, ∀ info, w.changeInfo unit keys entry = some info →
    (∀ p ∈ proofs, p.y w.env ≠ some info.y) ∧
      ∀ entry' ∈ entries, ∀ info', w.changeInfo unit keys entry' = some info' →
        info'.y = info.y → info' = info

/-- The answer to a request is one that the wallet handles. Readable change is worth no more than
what is left of the inputs. Without a payment it is not readable, or no input is stored. With a
payment it makes entries of their own, or none that are new if it is not readable. -/
structure AnswerFits (keys : Amount → Option PublicKey) (call : MeltCall) (sent : MeltSent)
    (change : List BlindSignature) (state : MeltQuoteState) (s : Store) : Prop where
  worth_le : w.ReadableChange sent.quote.unit keys sent.preMints change →
    sent.quote.amount.toNat + Amount.total (change.map BlindSignature.amount) ≤ worth call.proofs
  unpaid : state ≠ .paid → w.ReadableChange sent.quote.unit keys sent.preMints change →
    ∀ p ∈ call.proofs, ∀ y, p.y w.env = some y → s.proofs.find? y = none
  paid : state = .paid → w.ReadableChange sent.quote.unit keys sent.preMints change →
    w.Separate sent.quote.unit keys call.proofs (change.zip sent.preMints)
  unreadable : state = .paid → ¬ w.ReadableChange sent.quote.unit keys sent.preMints change →
    ∀ entry ∈ change.zip sent.preMints, ∀ info,
      w.changeInfo sent.quote.unit keys entry = some info → s.proofs.find? info.y = some info

/-- What is taken for granted of secrets from the seed: they are no texts of conditions, and what is
blinded was hashed to its point. -/
structure SeedRegular : Prop where
  plain : ∀ id counter secret r, w.seedSecret id counter = some (secret, r) →
    w.env.parseSecret secret = none
  hashed : ∀ secret r blinded, w.blind secret r = some blinded →
    (w.env.hashToCurve (utf8 secret)).isSome

/-- What is taken for granted besides: the call for the active keyset returns, and the logarithm of
an amount is small. -/
structure Regular : Prop extends SeedRegular w where
  returns : w.fetchActiveKeyset ≠ .panic
  log2Ceil_lt : ∀ amount, w.machine.log2Ceil amount < 2 ^ 32

end Safety

/-! ## The change -/

section Change

variable {w : Wallet} {unit : CurrencyUnit} {keys : Amount → Option PublicKey}
  {preMints : List PreMint} {change : List BlindSignature}

/-- A secret from the seed. -/
structure Blank (w : Wallet) (p : PreMint) : Prop where
  plain : w.env.parseSecret p.secret = none
  hashed : (w.env.hashToCurve (utf8 p.secret)).isSome

/-- A blank output becomes a proof exactly if the signature can be unblinded, and the proof is
stored as the entry. -/
theorem constructProof_eq_ok_iff {entry : BlindSignature × PreMint} (hblank : w.Blank entry.2) :
    (∃ proof, w.constructProof keys entry.1 entry.2.r entry.2.secret = .ok proof) ↔
      (w.changeInfo unit keys entry).isSome := by
  obtain ⟨y, hy⟩ := Option.isSome_iff_exists.mp hblank.hashed
  unfold constructProof changeInfo
  cases keys entry.1.amount with
  | none => simp [Outcome.ofOption]
  | some a => cases hc : w.unblind entry.1.c entry.2.r a <;> simp [Outcome.ofOption, hc, hy]

theorem proofInfo_of_constructProof {entry : BlindSignature × PreMint} {proof : Proof}
    (hblank : w.Blank entry.2)
    (h : w.constructProof keys entry.1 entry.2.r entry.2.secret = .ok proof) :
    proof.amount = entry.1.amount ∧ ∃ info, w.changeInfo unit keys entry = some info ∧
      { w with unit := unit }.proofInfo .unspent proof = .ok info := by
  obtain ⟨y, hy⟩ := Option.isSome_iff_exists.mp hblank.hashed
  simp only [constructProof, Outcome.bind_eq_ok, Outcome.ofOption_eq_ok] at h
  obtain ⟨a, ha, c, hc, h⟩ := h
  cases h
  have hinfo : w.changeInfo unit keys entry = some ⟨⟨⟨entry.1.amount, entry.1.keysetId,
      entry.2.secret, c, none⟩, none⟩, y, w.mintUrl, .unspent, none, unit⟩ := by
    simp [changeInfo, ha, hc, hy]
  refine ⟨rfl, _, hinfo, ?_⟩
  simp [proofInfo, Proof.y, hy, Outcome.ofOption, SpendingConditions.tryFrom, hblank.plain,
    Outcome.toOption]

/-- As many blank outputs as there are signatures are used in order. -/
theorem zip_zip_take {α β γ δ : Type} (f : β → γ) (g : β → δ) (xs : List α) (ys : List β) :
    (xs.zip ((ys.map f).take xs.length)).zip ((ys.map g).take xs.length) =
      (xs.zip ys).map fun entry => ((entry.1, f entry.2), g entry.2) := by
  induction xs generalizing ys with
  | nil => rfl
  | cons x xs ih =>
      cases ys with
      | nil => rfl
      | cons y ys =>
          rw [List.map_cons, List.map_cons, List.length_cons, List.take_succ_cons,
            List.take_succ_cons, List.zip_cons_cons, List.zip_cons_cons, List.zip_cons_cons,
            List.map_cons, ih]

theorem mapM_map {α β γ ε : Type} (f : β → Outcome ε γ) (g : α → β) (xs : List α) :
    (xs.map g).mapM f = xs.mapM fun x => f (g x) := by
  induction xs with
  | nil => rfl
  | cons x xs ih => rw [List.map_cons, List.mapM_cons, List.mapM_cons, ih]

theorem constructProofs_eq (change : List BlindSignature) (preMints : List PreMint) :
    w.constructProofs change
        ((preMints.map PreMint.r).take
          (if preMints.length < change.length then preMints.length else change.length))
        ((preMints.map PreMint.secret).take
          (if preMints.length < change.length then preMints.length else change.length)) keys =
      if preMints.length < change.length then .err .lengths
      else (change.zip preMints).mapM fun entry =>
        w.constructProof keys entry.1 entry.2.r entry.2.secret := by
  unfold constructProofs
  by_cases h : preMints.length < change.length
  · have hshort : change.length ≠ ((preMints.map PreMint.r).take preMints.length).length := by
      rw [List.length_take, List.length_map]
      omega
    rw [if_pos h, if_pos h, if_pos (.inl hshort)]
  · have hlength {α : Type} (f : PreMint → α) :
        ¬ change.length ≠ ((preMints.map f).take change.length).length := by
      rw [List.length_take, List.length_map]
      omega
    rw [if_neg h, if_neg h, if_neg (not_or.mpr ⟨hlength _, hlength _⟩), zip_zip_take, mapM_map]

/-- The proofs of the change and their entries, where the change can be made. -/
structure Made (w : Wallet) (unit : CurrencyUnit) (keys : Amount → Option PublicKey)
    (preMints : List PreMint) (change : List BlindSignature) (proofs : List Proof)
    (infos : List ProofInfo) : Prop where
  amounts : proofs.map Proof.amount = change.map BlindSignature.amount
  entries : (change.zip preMints).map (w.changeInfo unit keys) = infos.map some
  stored : proofs.mapM ({ w with unit := unit }.proofInfo .unspent) = .ok infos

theorem made_of_mapM {proofs : List Proof} (hle : change.length ≤ preMints.length)
    (hblank : ∀ p ∈ preMints, w.Blank p)
    (h : (change.zip preMints).mapM (fun entry =>
      w.constructProof keys entry.1 entry.2.r entry.2.secret) = .ok proofs) :
    ∃ infos, w.Made unit keys preMints change proofs infos := by
  induction change generalizing preMints proofs with
  | nil =>
      cases h
      exact ⟨[], rfl, rfl, rfl⟩
  | cons signature change ih =>
      cases preMints with
      | nil => cases hle
      | cons preMint preMints =>
          simp only [List.zip_cons_cons, List.mapM_cons, Outcome.bind_eq_ok, Outcome.pure_eq,
            Outcome.ok.injEq] at h
          obtain ⟨proof, hproof, rest, hrest, rfl⟩ := h
          have hfirst := hblank preMint List.mem_cons_self
          obtain ⟨hamount, info, hinfo, hstored⟩ :=
            @proofInfo_of_constructProof w unit keys (signature, preMint) proof hfirst hproof
          obtain ⟨infos, hmade⟩ := ih (Nat.le_of_succ_le_succ hle)
            (fun p hp => hblank p (List.mem_cons_of_mem _ hp)) hrest
          refine ⟨info :: infos, ?_, ?_, ?_⟩
          · rw [List.map_cons, List.map_cons, hmade.amounts, hamount]
          · rw [List.zip_cons_cons, List.map_cons, List.map_cons, hmade.entries, hinfo]
          · rw [List.mapM_cons, hstored, Outcome.bind_ok, hmade.stored, Outcome.bind_ok,
              Outcome.pure_eq]

/-- Either the change is made, or there is an error since a signature has no blank output or one of
them is of no use. -/
theorem meltChangeProofs_cases (unit : CurrencyUnit) (hblank : ∀ p ∈ preMints, w.Blank p)
    (answered : Option (List BlindSignature)) :
    (∃ made infos, w.meltChangeProofs keys preMints answered = .ok made ∧
        (answered.getD []).length ≤ preMints.length ∧
        (∀ entry ∈ (answered.getD []).zip preMints, (w.changeInfo unit keys entry).isSome) ∧
        w.Made unit keys preMints (answered.getD []) (made.getD []) infos ∧
        (made = none → infos = [])) ∨
      ((∃ e, w.meltChangeProofs keys preMints answered = .err e) ∧
        ¬ w.ReadableChange unit keys preMints (answered.getD [])) := by
  cases answered with
  | none =>
      exact .inl ⟨none, [], rfl, Nat.zero_le _, fun _ h => absurd h List.not_mem_nil,
        ⟨rfl, rfl, rfl⟩, fun _ => rfl⟩
  | some change =>
      rw [Option.getD_some, meltChangeProofs, constructProofs_eq]
      by_cases hlength : preMints.length < change.length
      · rw [if_pos hlength]
        exact .inr ⟨⟨_, rfl⟩, fun h => absurd h.length_le (Nat.not_le_of_lt hlength)⟩
      · rw [if_neg hlength]
        have hpanic : (change.zip preMints).mapM (fun entry =>
            w.constructProof keys entry.1 entry.2.r entry.2.secret) ≠ .panic := by
          refine Outcome.mapM_ne_panic fun entry _ => ?_
          simp [constructProof, Outcome.bind_ne_panic]
        cases h : (change.zip preMints).mapM (fun entry =>
            w.constructProof keys entry.1 entry.2.r entry.2.secret) with
        | panic => exact absurd h hpanic
        | ok proofs =>
            obtain ⟨infos, hmade⟩ := made_of_mapM (Nat.le_of_not_lt hlength) hblank h
            refine .inl ⟨some proofs, infos, rfl, Nat.le_of_not_lt hlength, fun entry hentry => ?_,
              hmade, by rintro ⟨⟩⟩
            obtain ⟨proof, -, hproof⟩ := Outcome.exists_mem_of_mapM h hentry
            exact (constructProof_eq_ok_iff (hblank _ (List.of_mem_zip hentry).2)).mp ⟨proof, hproof⟩
        | err e =>
            refine .inr ⟨⟨e, rfl⟩, fun hreadable => ?_⟩
            obtain ⟨proofs, hproofs⟩ := Outcome.exists_mapM fun entry hentry =>
              (constructProof_eq_ok_iff (hblank _ (List.of_mem_zip hentry).2)).mpr
                (hreadable.entries entry hentry)
            rw [h] at hproofs
            cases hproofs

theorem total_eq_of_worth {proofs : List Proof} {a : Amount} (h : a.toNat = worth proofs) :
    total proofs = .ok a := by
  rw [total, Outcome.mapErr_eq_ok, Selection.totalAmount_eq_ok]
  exact h

theorem worth_of_made {proofs : List Proof} {infos : List ProofInfo}
    (h : w.Made unit keys preMints change proofs infos) :
    worth proofs = Amount.total (change.map BlindSignature.amount) :=
  congrArg Amount.total h.amounts

theorem changeTotal_eq {made : Option (List Proof)} {a : Amount}
    (h : a.toNat = worth (made.getD [])) : changeTotal made = .ok a := by
  cases made with
  | none => exact congrArg Outcome.ok (Amount.ext_toNat h.symm)
  | some changeProofs => exact total_eq_of_worth h

theorem changeTotal_eq_err {made : Option (List Proof)} (h : 2 ^ 64 ≤ worth (made.getD [])) :
    ∃ e, changeTotal made = .err e := by
  cases made with
  | none => exact absurd h (by decide)
  | some changeProofs =>
      cases htotal : total changeProofs with
      | ok a =>
          rw [total, Outcome.mapErr_eq_ok, Selection.totalAmount_eq_ok] at htotal
          have hlt := a.isLt
          rw [Option.getD_some] at h
          omega
      | err e => exact ⟨e, htotal⟩
      | panic =>
          refine absurd htotal (Outcome.mapErr_ne_panic.mpr ?_)
          exact Outcome.ofOption_ne_panic _ _

/-- The fee that was paid is what is left, which must be at least zero. -/
theorem fromProofs_eq {state : MeltQuoteState} {preimage : Option String}
    {amount changeAmount proofsTotal : Amount} {proofs : List Proof} {made : Option (List Proof)}
    (hproofs : proofsTotal.toNat = worth proofs)
    (hchange : changeAmount.toNat = worth (made.getD [])) :
    (∃ melted, Melted.fromProofs state preimage amount proofs made = .ok melted ∧
        amount.toNat + changeAmount.toNat ≤ worth proofs) ∨
      (Melted.fromProofs state preimage amount proofs made = .panic ∧
        worth proofs < amount.toNat + changeAmount.toNat) := by
  unfold Melted.fromProofs
  rw [total_eq_of_worth hproofs, Outcome.bind_ok, changeTotal_eq hchange, Outcome.bind_ok,
    Amount.add]
  have hlt := proofsTotal.isLt
  cases hadd : amount.checkedAdd changeAmount with
  | none =>
      have hover := Amount.checkedAdd_eq_none.mp hadd
      exact .inr ⟨rfl, by omega⟩
  | some spent =>
      have hspent := Amount.checkedAdd_eq_some.mp hadd
      cases hsub : proofsTotal.checkedSub spent with
      | none =>
          have hless := Amount.checkedSub_eq_none.mp hsub
          exact .inr ⟨by simp [Outcome.expect, hsub], by omega⟩
      | some feePaid =>
          have hfee := Amount.checkedSub_eq_some.mp hsub
          exact .inl ⟨_, by simp [Outcome.expect, hsub]; rfl, by omega⟩

theorem meltChangeInfos_eq {made : Option (List Proof)} {infos : List ProofInfo} {a : Amount}
    (hmade : w.Made unit keys preMints change (made.getD []) infos)
    (hnone : made = none → infos = []) (h : a.toNat = worth (made.getD [])) :
    w.meltChangeInfos unit made = .ok infos := by
  cases made with
  | none => rw [hnone rfl, meltChangeInfos]
  | some changeProofs =>
      rw [Option.getD_some] at h hmade
      rw [meltChangeInfos, total_eq_of_worth h]
      exact hmade.stored

/-- Behind an answer the inputs are exchanged for the change, or the paid fee is below zero, or the
change is not readable. -/
theorem finishMelt_cases {storedKeys : Id → Option (Amount → Option PublicKey)}
    {proofs : List Proof} {sent : MeltSent} {ys : List PublicKey} (response : MeltResponse)
    (s : Store) (hblank : ∀ p ∈ sent.preMints, w.Blank p)
    (hkeys : storedKeys sent.keysetId = some keys) (hys : w.ys proofs = .ok ys)
    (hworth : worth proofs < 2 ^ 64) :
    (∃ melted infos, w.finishMelt storedKeys proofs sent response s =
          (.ok melted, s.updateProofs infos ys) ∧
        w.ReadableChange sent.quote.unit keys sent.preMints (response.change.getD []) ∧
        sent.quote.amount.toNat +
          Amount.total ((response.change.getD []).map BlindSignature.amount) ≤ worth proofs ∧
        ((response.change.getD []).zip sent.preMints).map (w.changeInfo sent.quote.unit keys) =
          infos.map some) ∨
      (w.finishMelt storedKeys proofs sent response s = (.panic, s) ∧
        w.ReadableChange sent.quote.unit keys sent.preMints (response.change.getD []) ∧
        worth proofs < sent.quote.amount.toNat +
          Amount.total ((response.change.getD []).map BlindSignature.amount)) ∨
      ((∃ e, w.finishMelt storedKeys proofs sent response s = (.err e, s)) ∧
        ¬ w.ReadableChange sent.quote.unit keys sent.preMints (response.change.getD [])) := by
  have hproofs : (⟨worth proofs, hworth⟩ : Amount).toNat = worth proofs := rfl
  have hkeys' : Outcome.ofOption Error.noActiveKeyset (storedKeys sent.keysetId) = .ok keys :=
    Outcome.ofOption_eq_ok.mpr hkeys
  unfold finishMelt
  rw [Proc.lift_bind_of_ok hkeys']
  rcases meltChangeProofs_cases sent.quote.unit hblank response.change with
    ⟨made, infos, hmade, hlength, hentries, hinfos, hnone⟩ | ⟨⟨e, he⟩, hunreadable⟩
  · rw [Proc.lift_bind_of_ok hmade]
    have hchange := worth_of_made hinfos
    by_cases hlt : worth (made.getD []) < 2 ^ 64
    · have hreadable : w.ReadableChange sent.quote.unit keys sent.preMints
          (response.change.getD []) := ⟨hlength, hentries, hchange ▸ hlt⟩
      have hamount : (⟨worth (made.getD []), hlt⟩ : Amount).toNat = worth (made.getD []) := rfl
      rw [← hchange]
      rcases @fromProofs_eq response.state response.paymentPreimage sent.quote.amount _ _ _ _
        hproofs hamount with ⟨melted, hmelted, hle⟩ | ⟨hpanic, hless⟩
      · refine .inl ⟨melted, infos, ?_, hreadable, hle, hinfos.entries⟩
        rw [Proc.lift_bind_of_ok hmelted,
          Proc.lift_bind_of_ok (meltChangeInfos_eq hinfos hnone hamount),
          Proc.lift_bind_of_ok hys, Proc.bind_of_ok (Proc.write_run _ s)]
        rfl
      · refine .inr (.inl ⟨?_, hreadable, hless⟩)
        exact Proc.lift_bind_of_panic hpanic
    · obtain ⟨e, he⟩ := changeTotal_eq_err (Nat.le_of_not_lt hlt)
      refine .inr (.inr ⟨⟨e, ?_⟩, fun h => hlt (hchange ▸ h.total_lt)⟩)
      apply Proc.lift_bind_of_err
      rw [Melted.fromProofs, total_eq_of_worth hproofs, Outcome.bind_ok, he, Outcome.bind_err]
  · exact .inr (.inr ⟨⟨e, Proc.lift_bind_of_err he⟩, hunreadable⟩)

end Change

/-! ## The request -/

section Request

variable {w : Wallet} {id : Id} {counter : Nat} {amounts : List Amount} {preMints : List PreMint}
  {call : MeltCall} {sent : MeltSent} {s s₁ : Store}

theorem blank_of_deriveAll (hw : w.SeedRegular)
    (h : w.deriveAll id counter amounts = .ok preMints) : ∀ p ∈ preMints, w.Blank p := by
  induction amounts generalizing counter preMints with
  | nil =>
      cases h
      exact nofun
  | cons amount rest ih =>
      simp only [deriveAll, preMint, Outcome.bind_eq_ok, Outcome.ofOption_eq_ok] at h
      obtain ⟨first, ⟨⟨secret, r⟩, hdrawn, blinded, hblinded, hfirst⟩, next, -, others, hothers,
        h⟩ := h
      cases hfirst
      cases h
      refine List.forall_mem_cons.mpr ⟨⟨?_, ?_⟩, ih hothers⟩
      · exact hw.plain id counter secret r hdrawn
      · exact hw.hashed secret r blinded hblinded

theorem deriveAll_ne_panic (h : counter + amounts.length < 2 ^ 32) :
    w.deriveAll id counter amounts ≠ .panic := by
  induction amounts generalizing counter with
  | nil => rintro ⟨⟩
  | cons amount rest ih =>
      rw [List.length_cons] at h
      have hnext : Counters.addCounter counter 1 = .ok (counter + 1) :=
        Counters.addCounter_eq_ok.mpr ⟨by omega, rfl⟩
      simp only [deriveAll, Outcome.bind_ne_panic, preMint]
      refine ⟨⟨Outcome.ofOption_ne_panic _ _, fun drawn _ => ?_⟩, fun first _ => ?_⟩
      · exact ⟨Outcome.ofOption_ne_panic _ _, fun _ _ => by rintro ⟨⟩⟩
      · rw [hnext]
        refine ⟨by rintro ⟨⟩, fun next hcounter => ?_⟩
        cases hcounter
        exact ⟨ih (by omega), fun _ _ => by rintro ⟨⟩⟩

theorem ys_eq_ok_iff {proofs : List Proof} :
    (∃ ys, w.ys proofs = .ok ys) ↔ ∀ p ∈ proofs, (p.y w.env).isSome := by
  constructor
  · rintro ⟨ys, hys⟩ p hp
    obtain ⟨y, -, hy⟩ := Outcome.exists_mem_of_mapM hys hp
    exact Option.isSome_iff_exists.mpr ⟨y, Outcome.ofOption_eq_ok.mp hy⟩
  · intro h
    apply Outcome.exists_mapM
    intro p hp
    obtain ⟨y, hy⟩ := Option.isSome_iff_exists.mp (h p hp)
    exact ⟨y, Outcome.ofOption_eq_ok.mpr hy⟩

theorem ys_ne_panic {proofs : List Proof} : w.ys proofs ≠ .panic :=
  Outcome.mapM_ne_panic fun _ _ => Outcome.ofOption_ne_panic _ _

theorem total_ne_panic {proofs : List Proof} : total proofs ≠ .panic :=
  Outcome.mapErr_ne_panic.mpr (Outcome.ofOption_ne_panic _ _)

theorem beforePending_eq_ok {quote info : MeltQuoteInfo} {now : Nat} {proofs : List Proof}
    {proofsTotal : Amount} {ys : List PublicKey} :
    w.beforePending (some quote) now proofs = .ok (info, proofsTotal, ys) ↔
      info = quote ∧ now < quote.expiry ∧ proofsTotal.toNat = worth proofs ∧
        quote.amount.toNat + quote.feeReserve.toNat ≤ worth proofs ∧ w.ys proofs = .ok ys := by
  rw [beforePending, Outcome.ofOption_some, Outcome.bind_ok]
  simp only [Outcome.bind_eq_ok, Outcome.ensure_eq_ok, decide_eq_true_eq, total_eq_ok, Amount.add,
    Outcome.expect_eq_ok, Amount.checkedAdd_eq_some]
  constructor
  · rintro ⟨_, hnow, total, htotal, needed, hneeded, h⟩
    split at h
    · cases h
    next hless =>
      have hle : needed.toNat ≤ total.toNat := Nat.le_of_not_lt hless
      obtain ⟨ys', hys, h⟩ := Outcome.bind_eq_ok.mp h
      cases h
      exact ⟨rfl, hnow, htotal, by omega, hys⟩
  · rintro ⟨rfl, hnow, htotal, hle, hys⟩
    have hlt := proofsTotal.isLt
    refine ⟨(), hnow, proofsTotal, htotal,
      ⟨info.amount.toNat + info.feeReserve.toNat, by omega⟩, rfl, ?_⟩
    rw [if_neg, hys, Outcome.bind_ok]
    exact Nat.not_lt_of_le (htotal ▸ hle)

theorem beforePending_ne_panic {quote : MeltQuoteInfo} {now : Nat} {proofs : List Proof} :
    w.beforePending (some quote) now proofs ≠ .panic ↔
      (now < quote.expiry → worth proofs < 2 ^ 64 →
        quote.amount.toNat + quote.feeReserve.toNat < 2 ^ 64) := by
  have hrest (proofsTotal needed : Amount) : (if proofsTotal < needed then
      .err (.cdk .insufficientFunds)
      else w.ys proofs >>= fun ys => .ok (quote, proofsTotal, ys) :
        Outcome Error (MeltQuoteInfo × Amount × List PublicKey)) ≠ .panic := by
    split
    · exact nofun
    · exact Outcome.bind_ne_panic.mpr ⟨ys_ne_panic, fun _ _ => nofun⟩
  have hadd : (quote.amount.add quote.feeReserve : Outcome Error Amount) ≠ .panic ↔
      quote.amount.toNat + quote.feeReserve.toNat < 2 ^ 64 := by
    rw [Amount.add, Outcome.expect_ne_panic, Option.isSome_iff_ne_none, Ne,
      Amount.checkedAdd_eq_none, Nat.not_le]
  rw [beforePending, Outcome.ofOption_some, Outcome.bind_ok]
  constructor
  · intro h hnow hworth
    rw [Outcome.bind_ne_panic] at h
    have h := h.2 () (Outcome.ensure_eq_ok.mpr (decide_eq_true hnow))
    rw [Outcome.bind_ne_panic] at h
    have h := h.2 ⟨worth proofs, hworth⟩ (total_eq_ok.mpr rfl)
    exact hadd.mp (Outcome.bind_ne_panic.mp h).1
  · intro h
    refine Outcome.bind_ne_panic.mpr ⟨Outcome.ensure_ne_panic _ _, fun _ hnow => ?_⟩
    refine Outcome.bind_ne_panic.mpr ⟨total_ne_panic, fun proofsTotal htotal => ?_⟩
    have hnow := of_decide_eq_true (Outcome.ensure_eq_ok.mp hnow)
    have hworth := total_eq_ok.mp htotal ▸ proofsTotal.isLt
    exact Outcome.bind_ne_panic.mpr ⟨hadd.mpr (h hnow hworth), fun needed _ => hrest _ needed⟩

/-- The points that are in the store. -/
def Store.points (s : Store) : List PublicKey := s.proofs.rows.map ProofInfo.y

theorem Store.isSome_find? {y : PublicKey} : (s.proofs.find? y).isSome ↔ y ∈ s.points := by
  rw [Option.isSome_iff_exists, Store.points, List.mem_map]
  exact exists_congr fun info => Table.find?_eq_some

theorem Store.points_updateProofsState (ys : List PublicKey) (state : State) (s : Store) :
    (s.updateProofsState ys state).points = s.points := by
  rw [points, points, updateProofsState, Table.update_rows, List.map_map]
  apply List.map_congr_left
  intro info _
  dsimp only [Function.comp_apply]
  split <;> rfl

theorem transact_increment {count : Nat} (h : s.counters id + count < 2 ^ 32) :
    Proc.transact (Store.incrementKeysetCounter id count) s =
      (.ok (s.counters id + count),
        { s with counters := Function.update s.counters id (s.counters id + count) }) := by
  unfold Proc.transact Tx.commit Store.incrementKeysetCounter
  dsimp only
  rw [if_pos h]

theorem transact_increment_panic {count : Nat} (h : ¬ s.counters id + count < 2 ^ 32) :
    Proc.transact (Store.incrementKeysetCounter id count) s = (.panic, s) := by
  unfold Proc.transact Tx.commit Store.incrementKeysetCounter
  dsimp only
  rw [if_neg h]

/-- Deriving blank outputs panics only on the counter. -/
theorem blankPreMints_ne_panic (hw : w.Regular) {change : Amount} :
    (w.blankPreMints id change s).1 ≠ .panic ↔
      (0 < change.toNat → s.counters id + max (w.machine.log2Ceil change) 1 < 2 ^ 32) := by
  have hlog := hw.log2Ceil_lt change
  have hcount : Counters.asU32 (max (w.machine.log2Ceil change) 1) =
      max (w.machine.log2Ceil change) 1 := Nat.mod_eq_of_lt (by omega)
  unfold blankPreMints
  split
  next hzero =>
    have hzero : change.toNat ≤ 0 := hzero
    exact iff_of_true nofun fun hpos => absurd hpos (by omega)
  next hchange =>
    have hpos : 0 < change.toNat := Nat.lt_of_not_le hchange
    rw [forall_prop_of_true hpos, hcount]
    by_cases hroom : s.counters id + max (w.machine.log2Ceil change) 1 < 2 ^ 32
    · rw [Proc.bind_of_ok (transact_increment hroom)]
      refine iff_of_true ?_ hroom
      dsimp only [Proc.lift_run]
      rw [preMintsFromSeedBlank, if_neg hchange]
      apply deriveAll_ne_panic
      rw [List.length_replicate]
      omega
    · rw [Proc.bind_of_panic (transact_increment_panic hroom)]
      exact iff_of_false (fun h => h rfl) hroom

theorem blankPreMints_ok (hw : w.Regular) {change : Amount}
    (h : w.blankPreMints id change s = (.ok preMints, s₁)) : ∀ p ∈ preMints, w.Blank p := by
  unfold blankPreMints at h
  split at h
  · cases h
    exact nofun
  next hpos =>
    rw [Proc.bind_ok] at h
    obtain ⟨newCounter, s₂, -, h⟩ := h
    have hblank := congrArg Prod.fst h
    dsimp only [Proc.lift_run] at hblank
    rw [preMintsFromSeedBlank, if_neg hpos] at hblank
    exact blank_of_deriveAll hw.toSeedRegular hblank

theorem keeps_points_sendBehindPending {quote : StoredMeltQuote} {proofsTotal : Amount} :
    Proc.Keeps Store.points (w.sendBehindPending call quote proofsTotal) := by
  apply Proc.Keeps.bind (Proc.Keeps.lift _)
  intro activeKeysetId
  apply Proc.Keeps.bind (Proc.Keeps.lift _)
  intro changeAmount
  apply Proc.Keeps.bind ((keeps_proofs_blankPreMints w _ _).comp fun proofs =>
    proofs.rows.map ProofInfo.y)
  intro preMints
  dsimp only
  cases quote.paymentMethod with
  | custom _ => exact Proc.Keeps.lift _
  | bolt11 => exact Proc.Keeps.pure _
  | bolt12 => exact Proc.Keeps.pure _

/-- Up to its request a melt drops no proof. -/
theorem keeps_points_sendMelt : Proc.Keeps Store.points (w.sendMelt call) := by
  apply Proc.Keeps.bind (Proc.Keeps.lift _)
  intro quote
  apply Proc.Keeps.bind (Proc.Keeps.lift _)
  rintro ⟨_, proofsTotal, ys⟩
  apply Proc.Keeps.bind fun s => Store.points_updateProofsState ys .pending s
  exact fun _ => keeps_points_sendBehindPending

theorem sendBehindPending_ok (hw : w.Regular) {quote : StoredMeltQuote} {proofsTotal : Amount}
    (h : w.sendBehindPending call quote proofsTotal s = (.ok sent, s₁)) :
    ∀ p ∈ sent.preMints, w.Blank p := by
  unfold sendBehindPending at h
  rw [Proc.lift_bind_ok] at h
  obtain ⟨activeKeysetId, -, h⟩ := h
  rw [Proc.lift_bind_ok] at h
  obtain ⟨changeAmount, -, h⟩ := h
  rw [Proc.bind_ok] at h
  obtain ⟨preMints, s₂, hpreMints, h⟩ := h
  cases hmethod : quote.paymentMethod with
  | custom name =>
      rw [hmethod] at h
      cases h
  | bolt11 =>
      rw [hmethod] at h
      cases h
      exact blankPreMints_ok hw hpreMints
  | bolt12 =>
      rw [hmethod] at h
      cases h
      exact blankPreMints_ok hw hpreMints

/-- What is known when a request is sent. -/
theorem sendMelt_ok (hw : w.Regular) (h : w.sendMelt call s = (.ok sent, s₁)) :
    worth call.proofs < 2 ^ 64 ∧ (∃ ys, w.ys call.proofs = .ok ys) ∧
      ∀ p ∈ sent.preMints, w.Blank p := by
  unfold sendMelt at h
  rw [Proc.lift_bind_ok] at h
  obtain ⟨quote, -, h⟩ := h
  rw [Proc.lift_bind_ok] at h
  obtain ⟨⟨_, proofsTotal, ys⟩, hbefore, h⟩ := h
  obtain ⟨-, -, htotal, -, hys⟩ := beforePending_eq_ok.mp hbefore
  exact ⟨htotal ▸ proofsTotal.isLt, ⟨ys, hys⟩, sendBehindPending_ok hw h⟩

theorem sendBehindPending_ne_panic (hw : w.Regular) {quote : StoredMeltQuote}
    {proofsTotal : Amount} (hle : quote.amount.toNat ≤ proofsTotal.toNat) :
    (w.sendBehindPending call quote proofsTotal s).1 ≠ .panic ↔
      ∀ id, w.fetchActiveKeyset = .ok id → ∀ change : Amount,
        change.toNat + quote.amount.toNat = proofsTotal.toNat → 0 < change.toNat →
          s.counters id + max (w.machine.log2Ceil change) 1 < 2 ^ 32 := by
  have hsub (change : Amount) : (proofsTotal.sub quote.amount : Outcome Error Amount) =
      .ok change ↔ change.toNat + quote.amount.toNat = proofsTotal.toNat := by
    rw [Amount.sub, Outcome.expect_eq_ok, Amount.checkedSub_eq_some]
  have hchange : (proofsTotal.sub quote.amount : Outcome Error Amount) ≠ .panic := by
    have hlt := proofsTotal.isLt
    rw [(hsub ⟨proofsTotal.toNat - quote.amount.toNat, by omega⟩).mpr (Nat.sub_add_cancel hle)]
    rintro ⟨⟩
  unfold sendBehindPending
  rw [Proc.lift_bind_ne_panic, and_iff_right hw.returns]
  apply forall₂_congr
  intro id _
  rw [Proc.lift_bind_ne_panic, and_iff_right hchange]
  apply forall_congr'
  intro change
  rw [hsub]
  apply forall_congr'
  intro hamount
  rw [Proc.bind_ne_panic, blankPreMints_ne_panic hw]
  apply and_iff_left
  intro preMints s' _
  cases quote.paymentMethod <;> rintro ⟨⟩

/-- A melt panics before its request exactly if the amounts or the counter do not fit. -/
theorem sendMelt_ne_panic (hw : w.Regular) :
    (w.sendMelt call s).1 ≠ .panic ↔ w.RequestFits call s := by
  unfold sendMelt RequestFits
  rw [Proc.lift_bind_ne_panic, and_iff_right (Outcome.ofOption_ne_panic _ _)]
  simp only [Outcome.ofOption_eq_ok]
  apply forall₂_congr
  intro quote _
  rw [Proc.lift_bind_ne_panic, beforePending_ne_panic]
  constructor
  · rintro ⟨hfits, hbehind⟩ hnow hworth
    refine ⟨hfits hnow hworth, fun hle hys => ?_⟩
    obtain ⟨ys, hys⟩ := ys_eq_ok_iff.mpr hys
    have hrun := hbehind (quote.toMeltQuoteInfo, ⟨worth call.proofs, hworth⟩, ys)
      (beforePending_eq_ok.mpr ⟨rfl, hnow, rfl, hle, hys⟩)
    exact (sendBehindPending_ne_panic hw (Nat.le_of_add_right_le hle)).mp hrun
  · intro h
    refine ⟨fun hnow hworth => (h hnow hworth).1, ?_⟩
    rintro ⟨info, proofsTotal, ys⟩ hbefore
    obtain ⟨-, hnow, htotal, hle, hys⟩ := beforePending_eq_ok.mp hbefore
    have hworth : worth call.proofs < 2 ^ 64 := htotal ▸ proofsTotal.isLt
    have hroom := (h hnow hworth).2 hle (ys_eq_ok_iff.mp ⟨ys, hys⟩)
    rw [← htotal] at hroom hle
    exact (sendBehindPending_ne_panic hw (Nat.le_of_add_right_le hle)).mpr hroom

theorem behindPending_eq (call : MeltCall) (quote : StoredMeltQuote) (proofsTotal : Amount) :
    w.behindPending call.quoteId call.proofs quote.toMeltQuoteInfo proofsTotal s =
      (MeltSent.request <$> (w.sendBehindPending call quote proofsTotal s).1,
        (w.sendBehindPending call quote proofsTotal s).2) := by
  unfold behindPending sendBehindPending
  cases w.fetchActiveKeyset with
  | err e => rfl
  | panic => rfl
  | ok id =>
      rw [Proc.lift_bind_of_ok rfl, Proc.lift_bind_of_ok rfl]
      cases (proofsTotal.sub quote.amount : Outcome Error Amount) with
      | err e => rfl
      | panic => rfl
      | ok change =>
          rw [Proc.lift_bind_of_ok rfl, Proc.lift_bind_of_ok rfl]
          rcases h : w.blankPreMints id change s with ⟨preMints | e | _, s'⟩
          · rw [Proc.bind_of_ok h, Proc.bind_of_ok h]
            cases quote.paymentMethod <;> rfl
          · rw [Proc.bind_of_err h, Proc.bind_of_err h]
            rfl
          · rw [Proc.bind_of_panic h, Proc.bind_of_panic h]
            rfl

/-- The request is the one of `meltProofs`, and so is the store. -/
theorem meltProofs_eq (call : MeltCall) (s : Store) :
    w.meltProofs call.quoteId (call.quoteInfo.map StoredMeltQuote.toMeltQuoteInfo) call.now
        call.proofs s =
      (MeltSent.request <$> (w.sendMelt call s).1, (w.sendMelt call s).2) := by
  unfold meltProofs sendMelt
  cases call.quoteInfo with
  | none => rfl
  | some quote =>
      rw [Option.map_some, Outcome.ofOption_some, Proc.lift_bind_of_ok rfl]
      cases hbefore : w.beforePending (some quote.toMeltQuoteInfo) call.now call.proofs with
      | err e => rfl
      | panic => rfl
      | ok entry =>
          obtain ⟨info, proofsTotal, ys⟩ := entry
          obtain ⟨rfl, -⟩ := beforePending_eq_ok.mp hbefore
          rw [Proc.lift_bind_of_ok rfl, Proc.lift_bind_of_ok rfl]
          exact behindPending_eq call quote proofsTotal

end Request

/-! ## Safe answers -/

section Answers

variable {w : Wallet} {storedKeys : Id → Option (Amount → Option PublicKey)}
  {keys : Amount → Option PublicKey} {call : MeltCall} {sent : MeltSent} {response : MeltResponse}
  {s s₁ : Store} {infos : List ProofInfo} {ys : List PublicKey}

theorem find?_updateProofs (y : PublicKey) : (s.updateProofs infos ys).proofs.find? y =
    if y ∈ ys then none else (infos.foldl Table.upsert s.proofs).find? y := by
  have hremoved : (Store.updateProofs infos ys s).proofs.find? y =
      if ys.contains y then none else (infos.foldl Table.upsert s.proofs).find? y :=
    Table.find?_delete_key
  simpa using hremoved

/-- Entries are stored exactly if none of their points is removed or is another entry's. -/
theorem stored_updateProofs_iff :
    (∀ info ∈ infos, (s.updateProofs infos ys).proofs.find? info.y = some info) ↔
      ∀ info ∈ infos, info.y ∉ ys ∧ ∀ info' ∈ infos, info'.y = info.y → info' = info := by
  constructor
  · intro h info hinfo
    have hkept : info.y ∉ ys := by
      intro hremoved
      have hstored := h info hinfo
      rw [find?_updateProofs, if_pos hremoved] at hstored
      cases hstored
    refine ⟨hkept, fun info' hinfo' hy => ?_⟩
    have hstored := h info' hinfo'
    rw [hy, h info hinfo] at hstored
    exact (Option.some.inj hstored).symm
  · intro h info hinfo
    obtain ⟨hkept, hown⟩ := h info hinfo
    rw [find?_updateProofs, if_neg hkept]
    exact Table.find?_foldl_upsert_of_mem hinfo hown

theorem isSome_find?_of_sendMelt {x : Outcome Error MeltSent} (h : w.sendMelt call s = (x, s₁))
    (y : PublicKey) : (s₁.proofs.find? y).isSome ↔ (s.proofs.find? y).isSome := by
  have hpoints : (w.sendMelt call s).2.points = s.points := keeps_points_sendMelt s
  rw [h] at hpoints
  rw [Store.isSome_find?, Store.isSome_find?, hpoints]

/-- Without keys or a request an answer is not handled, and nothing is dropped. -/
theorem meltSafe_of_err {x : Outcome Error MeltSent} {e : Error} (h : w.sendMelt call s = (x, s₁))
    (hrun : w.meltProofsWithMetadata storedKeys call response s = (.err e, s₁))
    (hkeys : ∀ sent, x = .ok sent → storedKeys sent.keysetId = none) :
    w.MeltSafe storedKeys call response s := by
  refine ⟨?_, ?_, ?_⟩
  · rw [hrun]
    exact nofun
  · intro p _ y _ hstored hgone
    rw [← isSome_find?_of_sendMelt h] at hstored
    rw [hrun] at hgone
    rw [hgone] at hstored
    cases hstored
  · intro _ sent s₂ hsent keys hsome
    rw [h, Prod.mk.injEq] at hsent
    rw [hkeys sent hsent.1] at hsome
    cases hsome

theorem mem_ys_iff {proofs : List Proof} (hys : w.ys proofs = .ok ys) (y : PublicKey) :
    y ∈ ys ↔ ∃ p ∈ proofs, p.y w.env = some y := by
  constructor
  · intro hy
    obtain ⟨p, hp, hpy⟩ := Outcome.exists_of_mem_mapM hys hy
    exact ⟨p, hp, Outcome.ofOption_eq_ok.mp hpy⟩
  · rintro ⟨p, hp, hpy⟩
    obtain ⟨y', hy', hpy'⟩ := Outcome.exists_mem_of_mapM hys hp
    rw [Outcome.ofOption_eq_ok, hpy, Option.some.injEq] at hpy'
    exact hpy' ▸ hy'

/-- The entries that are made are separate exactly if they are all found afterwards. -/
theorem separate_iff {unit : CurrencyUnit} {proofs : List Proof}
    {entries : List (BlindSignature × PreMint)} (hys : w.ys proofs = .ok ys)
    (hinfos : entries.map (w.changeInfo unit keys) = infos.map some) :
    (∀ entry ∈ entries, ∀ info, w.changeInfo unit keys entry = some info →
        (s.updateProofs infos ys).proofs.find? info.y = some info) ↔
      w.Separate unit keys proofs entries := by
  have hmem (info : ProofInfo) :
      info ∈ infos ↔ ∃ entry ∈ entries, w.changeInfo unit keys entry = some info := by
    rw [← List.mem_map, hinfos]
    simp
  have hentries (P : ProofInfo → Prop) : (∀ entry ∈ entries, ∀ info,
      w.changeInfo unit keys entry = some info → P info) ↔ ∀ info ∈ infos, P info := by
    constructor
    · intro h info hinfo
      obtain ⟨entry, hentry, hmade⟩ := (hmem info).mp hinfo
      exact h entry hentry info hmade
    · intro h entry hentry info hmade
      exact h info ((hmem info).mpr ⟨entry, hentry, hmade⟩)
  have hgone (info : ProofInfo) :
      info.y ∉ ys ↔ ∀ p ∈ proofs, p.y w.env ≠ some info.y := by
    rw [mem_ys_iff hys]
    simp
  unfold Separate
  rw [hentries, hentries, stored_updateProofs_iff]
  simp only [hentries, hgone]

/-- What is asked of an answer, by how handling it ends. -/
theorem meltSafe_iff_of_finish {x : Outcome Error Melted} {s' : Store}
    (h : w.sendMelt call s = (.ok sent, s₁)) (hkeys : storedKeys sent.keysetId = some keys)
    (hfinish : w.finishMelt storedKeys call.proofs sent response s₁ = (x, s')) :
    w.MeltSafe storedKeys call response s ↔ x ≠ .panic ∧
      (∀ p ∈ call.proofs, ∀ y, p.y w.env = some y → (s₁.proofs.find? y).isSome →
        s'.proofs.find? y = none → response.state = .paid) ∧
      (response.state = .paid → ∀ entry ∈ (response.change.getD []).zip sent.preMints, ∀ info,
        w.changeInfo sent.quote.unit keys entry = some info →
          s'.proofs.find? info.y = some info) := by
  have hrun : w.meltProofsWithMetadata storedKeys call response s = (x, s') :=
    (Proc.bind_of_ok h).trans hfinish
  have hpoints := isSome_find?_of_sendMelt h
  constructor
  · rintro ⟨hreturns, hkept, hstored⟩
    rw [hrun] at hreturns hkept hstored
    refine ⟨hreturns, ?_, fun hpaid => hstored hpaid sent s₁ h keys hkeys⟩
    exact fun p hp y hy hbefore => hkept p hp y hy ((hpoints y).mp hbefore)
  · rintro ⟨hreturns, hkept, hstored⟩
    refine ⟨?_, ?_, ?_⟩
    · rwa [hrun]
    · rw [hrun]
      exact fun p hp y hy hbefore => hkept p hp y hy ((hpoints y).mpr hbefore)
    · intro hpaid sent' s₂ hsent keys' hkeys'
      rw [h] at hsent
      cases hsent
      rw [hkeys] at hkeys'
      cases hkeys'
      rw [hrun]
      exact hstored hpaid

/-- Behind its request a melt is safe exactly if the wallet handles the answer. -/
theorem meltSafe_of_ok (hw : w.Regular) (h : w.sendMelt call s = (.ok sent, s₁))
    (hkeys : storedKeys sent.keysetId = some keys) :
    w.MeltSafe storedKeys call response s ↔
      w.AnswerFits keys call sent (response.change.getD []) response.state s₁ := by
  obtain ⟨hworth, ⟨ys, hys⟩, hblank⟩ := sendMelt_ok hw h
  rcases finishMelt_cases response s₁ hblank hkeys hys hworth with
    ⟨melted, infos, hfinish, hreadable, hle, hinfos⟩ | ⟨hfinish, hreadable, hless⟩ |
      ⟨⟨e, hfinish⟩, hunreadable⟩
  · have hgone (p : Proof) (hp : p ∈ call.proofs) (y : PublicKey) (hy : p.y w.env = some y) :
        (s₁.updateProofs infos ys).proofs.find? y = none := by
      rw [find?_updateProofs, if_pos ((mem_ys_iff hys y).mpr ⟨p, hp, hy⟩)]
    rw [meltSafe_iff_of_finish h hkeys hfinish, separate_iff hys hinfos]
    constructor
    · rintro ⟨-, hkept, hseparate⟩
      refine ⟨fun _ => hle, fun hunpaid _ p hp y hy => ?_, fun hpaid _ => hseparate hpaid,
        fun _ hnot => absurd hreadable hnot⟩
      by_contra hstored
      exact hunpaid (hkept p hp y hy (Option.isSome_iff_ne_none.mpr hstored) (hgone p hp y hy))
    · intro hfits
      refine ⟨nofun, fun p hp y hy hstored _ => ?_, fun hpaid => hfits.paid hpaid hreadable⟩
      by_contra hunpaid
      rw [hfits.unpaid hunpaid hreadable p hp y hy] at hstored
      cases hstored
  · rw [meltSafe_iff_of_finish h hkeys hfinish]
    refine iff_of_false (fun hsafe => hsafe.1 rfl) fun hfits => ?_
    exact absurd (hfits.worth_le hreadable) (Nat.not_le_of_lt hless)
  · rw [meltSafe_iff_of_finish h hkeys hfinish]
    constructor
    · rintro ⟨-, -, hstored⟩
      exact ⟨fun hread => absurd hread hunreadable, fun _ hread => absurd hread hunreadable,
        fun _ hread => absurd hread hunreadable, fun hpaid _ => hstored hpaid⟩
    · intro hfits
      refine ⟨nofun, fun p _ y _ hstored hnone => ?_,
        fun hpaid => hfits.unreadable hpaid hunreadable⟩
      rw [hnone] at hstored
      cases hstored

/-- A melt that is answered is safe exactly if its request fits, and the wallet handles the answer to
the request that was sent. -/
theorem meltSafe_iff (hw : w.Regular) (storedKeys : Id → Option (Amount → Option PublicKey))
    (call : MeltCall) (response : MeltResponse) (s : Store) :
    w.MeltSafe storedKeys call response s ↔
      w.RequestFits call s ∧ ∀ sent s₁, w.sendMelt call s = (.ok sent, s₁) →
        ∀ keys, storedKeys sent.keysetId = some keys →
          w.AnswerFits keys call sent (response.change.getD []) response.state s₁ := by
  rw [← sendMelt_ne_panic hw]
  rcases h : w.sendMelt call s with ⟨sent | e | _, s₁⟩
  · rw [and_iff_right nofun]
    cases hkeys : storedKeys sent.keysetId with
    | none =>
        have hrun : w.meltProofsWithMetadata storedKeys call response s =
            (.err .noActiveKeyset, s₁) :=
          (Proc.bind_of_ok h).trans (Proc.lift_bind_of_err (by rw [hkeys]; rfl))
        refine iff_of_true (meltSafe_of_err h hrun ?_) ?_
        · rintro _ ⟨⟩
          exact hkeys
        · rintro _ _ ⟨⟩ keys hsome
          rw [hkeys] at hsome
          cases hsome
    | some keys =>
        rw [meltSafe_of_ok hw h hkeys]
        constructor
        · rintro hfits _ _ ⟨⟩ keys' hkeys'
          rw [hkeys] at hkeys'
          cases hkeys'
          exact hfits
        · intro hfits
          exact hfits sent s₁ rfl keys hkeys
  · exact iff_of_true (meltSafe_of_err h (Proc.bind_of_err h) nofun) ⟨nofun, nofun⟩
  · have hrun : w.meltProofsWithMetadata storedKeys call response s = (.panic, s₁) :=
      Proc.bind_of_panic h
    refine iff_of_false (fun hsafe => hsafe.returns ?_) fun hfits => hfits.1 rfl
    rw [hrun]

end Answers

/-! ### A melt with one blank output -/

/-- A wallet whose secrets have points by their length. -/
def meltWallet : Wallet :=
  { sampleWallet 0 noFee_lt with
    env := { pointEnv with hashToCurve := fun bytes => some ⟨false, BitVec.ofNat 256 bytes.length⟩ } }

theorem regular_meltWallet : meltWallet.Regular where
  plain := fun _ _ _ _ _ => rfl
  hashed := fun _ _ _ _ => rfl
  returns := nofun
  log2Ceil_lt := fun _ => Nat.two_pow_pos 32

/-- A payment of six with a proof of eight. -/
def sixCall : MeltCall :=
  ⟨"quote", some ⟨⟨6, 1, 1, .bolt11⟩, .sat⟩, 0, [inputProof 8 "a"]⟩

/-- The store with the proof of eight. -/
def eightStored : Store :=
  ⟨⟨[⟨⟨inputProof 8 "a", none⟩, ⟨false, 1⟩, "https://mint.example", .unspent, none, .sat⟩],
    List.nodup_singleton _⟩, fun _ => 0⟩

/-- The keys that the wallet has of its keyset. -/
def sampleKeys (_ : Id) : Option (Amount → Option PublicKey) := some fun _ => some ⟨false, 1⟩

/-- What is sent for it. -/
def sixSent : MeltSent where
  quote := ⟨⟨6, 1, 1, .bolt11⟩, .sat⟩
  keysetId := .v1 1
  preMints := [⟨⟨0, .v1 1, ⟨false, 1⟩⟩, hexDigits 64 0, 1, 0⟩]
  request := ⟨"quote", [inputProof 8 "a"], some [⟨0, .v1 1, ⟨false, 1⟩⟩]⟩

theorem sendMelt_sixCall : meltWallet.sendMelt sixCall eightStored =
    (.ok sixSent, (meltWallet.sendMelt sixCall eightStored).2) :=
  Prod.ext (by decide +kernel) rfl

/-- A payment with change of one for the blank output. -/
def paidAnswer : MeltResponse := ⟨.paid, none, some [⟨1, .v1 1, ⟨false, 2⟩⟩]⟩

theorem meltSafe_iff_paidAnswer :
    meltWallet.MeltSafe sampleKeys sixCall paidAnswer eightStored ↔
      meltWallet.RequestFits sixCall eightStored ∧
        ∀ sent s₁, meltWallet.sendMelt sixCall eightStored = (.ok sent, s₁) →
          ∀ keys, sampleKeys sent.keysetId = some keys →
            meltWallet.AnswerFits keys sixCall sent (paidAnswer.change.getD []) paidAnswer.state
              s₁ :=
  meltSafe_iff regular_meltWallet sampleKeys sixCall paidAnswer eightStored

/-- An answer that is still pending drops the input, change beyond the inputs panics, and of two
signatures for one blank output none is stored. -/
theorem not_meltSafe :
    ¬ meltWallet.MeltSafe sampleKeys sixCall ⟨.pending, none, none⟩ eightStored ∧
    ¬ meltWallet.MeltSafe sampleKeys sixCall ⟨.paid, none, some [⟨8, .v1 1, ⟨false, 2⟩⟩]⟩
      eightStored ∧
    ¬ meltWallet.MeltSafe sampleKeys sixCall
      ⟨.paid, none, some [⟨1, .v1 1, ⟨false, 2⟩⟩, ⟨1, .v1 1, ⟨false, 2⟩⟩]⟩ eightStored := by
  refine ⟨fun h => ?_, fun h => ?_, fun h => ?_⟩
  · exact absurd (h.inputsKept (inputProof 8 "a") (by decide) ⟨false, 1⟩ (by decide +kernel)
      (by decide) (by decide +kernel)) (by decide)
  · exact h.returns (by decide +kernel)
  · have hstored := h.changeStored rfl sixSent _ sendMelt_sixCall _ rfl
      (⟨1, .v1 1, ⟨false, 2⟩⟩, ⟨⟨0, .v1 1, ⟨false, 1⟩⟩, hexDigits 64 0, 1, 0⟩) List.mem_cons_self
      _ rfl
    revert hstored
    decide +kernel

end Wallet

end Cdk
