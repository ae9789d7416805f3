import Cdk.Wallet.BrowserStore
import Cdk.Wallet.Swap

/-!
# The swap of the checker

The page opens the store of its wallet, picks unspent proofs that are worth at
least three, and swaps them for two proofs under a condition and the change. The
inputs are pending while the mint is asked and are deleted when it has answered.
The secrets of the outputs are only in memory, so from then on every call that
fails loses them.
-/

namespace Cdk

open Lib

namespace Checker

/-! ## The denominations of the change -/

inductive Failure where
  | denominations
  | mintUrl
  | seed
  | store
  | pubkey
  | insufficientBalance
  | getKeysets
  | noActiveKeyset
  | output
  | selectDenominations
  | swap
  | getMintKeys
  | keysetNotFound
  | constructProofs
  | proofInfo
  | storeChange
  | returnProofs
deriving DecidableEq, Repr

inductive Error where
  /-- The loop over the denominations has not ended. -/
  | outOfFuel
  | failed (failure : Failure)
deriving DecidableEq, Repr

/-- The inner loop of `select_denominations`, on what remains and what is selected. -/
def takeAmount (amount : Amount) : Nat → Nat × List Amount → Option (Nat × List Amount)
  | 0, _ => none
  | fuel + 1, (remaining, selected) =>
      if amount.toNat ≤ remaining then
        takeAmount amount fuel (remaining - amount.toNat, selected ++ [amount])
      else some (remaining, selected)

def selectDenominations (fuel target : Nat) (available : List Amount) :
    Outcome Error (List Amount) :=
  let sorted := available.mergeSort fun a b => b ≤ a
  match sorted.foldlM (fun s amount => takeAmount amount fuel s) (target, []) with
  | none => .err .outOfFuel
  | some (remaining, selected) =>
      if remaining > 0 then .err (.failed .selectDenominations) else .ok selected

/-! ## The swap -/

/-- What the calls of a run give that are not those of the wallet. -/
structure Calls where
  denominations : Option (List Amount)
  parsesMintUrl : Bool
  parsesSeed : Bool
  loads : Bool
  savesOpened : Bool
  alicePubkey : Option PublicKey
  bobPubkey : Option PublicKey
  useSigAll : Bool
  getMintKeysets : Option (List KeySetInfo)
  /-- `Secret::generate` with the blinding factor. -/
  generate : Nat → String × BitVec 256
  savesPending : Bool
  postSwap : SwapRequest → Option (List BlindSignature)
  savesDeleted : Bool
  getMintKeys : Option (List (Id × (Amount → Option PublicKey)))
  savesChange : Nat → Bool
  returnsProofs : Bool

/-- The picked proofs with the outputs under the condition. -/
structure Chosen where
  inputs : List ProofInfo
  inputTotal : Nat
  keysetId : Id
  p2pk : List Wallet.PreMint

/-- A request with the secrets of its outputs. -/
structure Prepared where
  inputs : List ProofInfo
  keysetId : Id
  preMints : List Wallet.PreMint

def Prepared.inputYs (prepared : Prepared) : List PublicKey := prepared.inputs.map ProofInfo.y

def Prepared.request (prepared : Prepared) : SwapRequest where
  inputs := prepared.inputs.map fun info => info.proof.toProof
  outputs := prepared.preMints.map Wallet.PreMint.blindedMessage

/-- The item of the local storage, the copy of the instance, and the request that was posted with
the answer of the mint. -/
structure Page (R : Type) where
  item : Option (WalletState R)
  copy : WalletState R
  posted : Option (Prepared × Option (List BlindSignature))

def p2pkAmounts : List Amount := [1, 2]

def totalP2pk : Nat := 3

section Swap

variable {R : Type} (w : Wallet) (calls : Calls)

/-- `save_snapshot`. -/
def saveSnapshot (saves : Bool) (failure : Failure) : Proc (Page R) Failure Unit := fun page =>
  if saves then (.ok (), { page with item := some page.copy }) else (.err failure, page)

def changeCopy (f : WalletState R → WalletState R) (saves : Bool) (failure : Failure) :
    Proc (Page R) Failure Unit := do
  Proc.write fun page => { page with copy := f page.copy }
  saveSnapshot saves failure

/-- The parsing of the first arguments and `LocalStorageWalletDatabase::new`. -/
def openWallet [Inhabited R] : Proc (Page R) Failure (List Amount) := do
  let denominations ← .lift (.ofOption .denominations calls.denominations)
  .lift (.ensure calls.parsesMintUrl .mintUrl)
  .lift (.ensure calls.parsesSeed .seed)
  Proc.write fun page =>
    { page with copy := if calls.loads then page.item.getD default else default }
  saveSnapshot calls.savesOpened .store
  pure denominations

/-- `get_proofs` for the unspent proofs. -/
def unspentProofs (state : WalletState R) : List ProofInfo :=
  state.proofs.filter fun info =>
    info.mintUrl == w.mintUrl && info.unit == w.unit && info.state == .unspent

/-- The loop that picks inputs; its sum wraps. -/
def pickInputs : List ProofInfo → Nat → List ProofInfo × Nat
  | [], inputTotal => ([], inputTotal)
  | info :: rest, inputTotal =>
      if inputTotal ≥ totalP2pk then ([], inputTotal)
      else
        let (picked, total) := pickInputs rest ((inputTotal + info.proof.amount.toNat) % 2 ^ 64)
        (info :: picked, total)

/-- `Conditions::new` and `SpendingConditions::new_p2pk`, which do not fail. -/
def Calls.spendingConditions (alicePk bobPk : PublicKey) : SpendingConditions :=
  .p2pk alicePk (some ⟨none, some [bobPk], none, some 2,
    if calls.useSigAll then .sigAll else .sigInputs, none⟩)

/-- The inputs, the active keyset and the outputs under the condition. -/
def chooseInputs (state : WalletState R) : Outcome Failure Chosen := do
  let alicePk ← .ofOption .pubkey calls.alicePubkey
  let bobPk ← .ofOption .pubkey calls.bobPubkey
  let (inputs, inputTotal) := pickInputs (unspentProofs w state) 0
  .ensure (totalP2pk ≤ inputTotal) .insufficientBalance
  let keysets ← .ofOption .getKeysets calls.getMintKeysets
  let keyset ← .ofOption .noActiveKeyset (keysets.find? KeySetInfo.active)
  let p2pk ← (p2pkAmounts.zipIdx.mapM fun part =>
    w.preMint keyset.id part.1 (w.draw (calls.spendingConditions alicePk bobPk) part.2)).mapErr
      fun _ => .output
  .ok ⟨inputs, inputTotal, keyset.id, p2pk⟩

def Chosen.changeAmount (chosen : Chosen) : Nat := chosen.inputTotal - totalP2pk

def selectChange (fuel : Nat) (chosen : Chosen) (denominations : List Amount) :
    Outcome Error (List Amount) :=
  if chosen.changeAmount > 0 then selectDenominations fuel chosen.changeAmount denominations
  else .ok []

/-- The change outputs and the request. -/
def prepareSwap (chosen : Chosen) (change : List Amount) : Outcome Failure Prepared := do
  let preMints ← (change.zipIdx.mapM fun part =>
    w.preMint chosen.keysetId part.1 (some (calls.generate part.2))).mapErr fun _ => .output
  .ok ⟨chosen.inputs, chosen.keysetId, chosen.p2pk ++ preMints⟩

def safeSwap (prepared : Prepared) : Proc (Page R) Failure (List BlindSignature) := do
  changeCopy (·.updateProofsState prepared.inputYs .pending) calls.savesPending .swap
  let answer := calls.postSwap prepared.request
  Proc.write fun page => { page with posted := some (prepared, answer) }
  let response ← .lift (.ofOption .swap answer)
  changeCopy (·.updateProofs [] prepared.inputYs) calls.savesDeleted .swap
  pure response

/-- The loop that stores the change proofs. -/
def storeChange : Nat → List Proof → Proc (Page R) Failure Unit
  | _, [] => pure ()
  | n, changeProof :: rest => do
      let proofInfo ← .lift ((w.proofInfo .unspent changeProof).mapErr fun _ => .proofInfo)
      changeCopy (·.updateProofs [proofInfo] []) (calls.savesChange n) .storeChange
      storeChange (n + 1) rest

/-- What follows the swap: the outputs are made, the change is stored and the others returned. -/
def finishSwap (prepared : Prepared) (signatures : List BlindSignature) :
    Proc (Page R) Failure (List Proof) := do
  let allKeys ← .lift (.ofOption .getMintKeys calls.getMintKeys)
  let mintKeys ← .lift (.ofOption .keysetNotFound (allKeys.find? fun k => k.1 = prepared.keysetId))
  let allProofs ← .lift ((w.constructProofs signatures (prepared.preMints.map Wallet.PreMint.r)
    (prepared.preMints.map Wallet.PreMint.secret) mintKeys.2).mapErr fun _ => .constructProofs)
  storeChange w calls 0 (allProofs.drop 2)
  .lift (.ensure calls.returnsProofs .returnProofs)
  pure (allProofs.take 2)

/-- `safe_swap` and what follows it. -/
def swapPrepared (prepared : Prepared) : Proc (Page R) Failure (List Proof) := do
  let response ← safeSwap calls prepared
  finishSwap w calls prepared response

/-- What follows the opening of the store. -/
def swapOpened (fuel : Nat) (denominations : List Amount) : Proc (Page R) Error (List Proof) := do
  let chosen ← .mapErr .failed (.read fun page => chooseInputs w calls page.copy)
  let change ← .lift (selectChange fuel chosen denominations)
  let prepared ← .mapErr .failed (.lift (prepareSwap w calls chosen change))
  .mapErr .failed (swapPrepared w calls prepared)

def swapToP2pk2of2 [Inhabited R] (fuel : Nat) : Proc (Page R) Error (List Proof) := do
  let denominations ← .mapErr .failed (openWallet calls)
  swapOpened w calls fuel denominations

/-! ## What a run leaves behind -/

/-- A run of a page on the item that it finds. -/
def run [Inhabited R] (fuel : Nat) (item : Option (WalletState R)) :
    Outcome Error (List Proof) × Page R :=
  swapToP2pk2of2 w calls fuel ⟨item, default, none⟩

/-- The proof is in the store. -/
def StillStored (info : ProofInfo) (item : Option (WalletState R)) : Prop :=
  ∃ state, item = some state ∧ ∃ stored ∈ state.proofs,
    stored.setState info.state = info ∧ (stored.state = .unspent ∨ stored.state = .pending)

/-- Every output proof of the swap is returned, or stored as unspent. -/
def OutputsHeld (prepared : Prepared) (signatures : List BlindSignature)
    (r : Outcome Error (List Proof) × Page R) : Prop :=
  ∃ keys proofs returned, w.constructProofs signatures (prepared.preMints.map Wallet.PreMint.r)
      (prepared.preMints.map Wallet.PreMint.secret) keys = .ok proofs ∧
    r.1 = .ok returned ∧
    ∀ p ∈ proofs, p ∈ returned ∨ ∃ state, r.2.item = some state ∧
      ∃ stored ∈ state.proofs, stored.proof.toProof = p ∧ stored.state = .unspent

/-- Nothing of the unspent proofs is lost. -/
structure Accounted [Inhabited R] (item : Option (WalletState R))
    (r : Outcome Error (List Proof) × Page R) : Prop where
  balanced : ∀ posted ∈ r.2.posted,
    Amount.total (posted.1.request.outputs.map BlindedMessage.amount) =
      Amount.total (posted.1.request.inputs.map Proof.amount)
  kept : ∀ info ∈ (item.getD default).proofs, info.state = .unspent →
    StillStored info r.2.item ∨
      ∃ prepared signatures, r.2.posted = some (prepared, some signatures) ∧
        info.y ∈ prepared.inputYs ∧ OutputsHeld w prepared signatures r

/-- The run ends, and accounts for every proof. -/
def KeepsValue [Inhabited R] (item : Option (WalletState R)) : Prop :=
  (∃ fuel, (run w calls fuel item).1 ≠ .err .outOfFuel) ∧
    ∀ fuel, (run w calls fuel item).1 ≠ .err .outOfFuel →
      Accounted w item (run w calls fuel item)

/-! ## What the calls have to do -/

/-- The store is opened with these denominations. -/
structure Calls.Opens (denominations : List Amount) : Prop where
  denominations : calls.denominations = some denominations
  mintUrl : calls.parsesMintUrl = true
  seed : calls.parsesSeed = true
  saved : calls.savesOpened = true

/-- Every call after the deletion succeeds. -/
structure Finishes (prepared : Prepared) (signatures : List BlindSignature) : Prop where
  stored : ∃ allKeys mintKeys proofs, calls.getMintKeys = some allKeys ∧
    allKeys.find? (fun k => k.1 = prepared.keysetId) = some mintKeys ∧
    w.constructProofs signatures (prepared.preMints.map Wallet.PreMint.r)
      (prepared.preMints.map Wallet.PreMint.secret) mintKeys.2 = .ok proofs ∧
    (∀ p ∈ proofs.drop 2, ∃ info, w.proofInfo .unspent p = .ok info) ∧
    ∀ n < (proofs.drop 2).length, calls.savesChange n = true
  returned : calls.returnsProofs = true

/-- The state that the instance starts from. -/
def Calls.opened [Inhabited R] (item : Option (WalletState R)) : WalletState R :=
  if calls.loads then item.getD default else default

/-- The request is made with the item. -/
def Prepares [Inhabited R] (fuel : Nat) (item : Option (WalletState R)) (prepared : Prepared) :
    Prop :=
  ∃ denominations chosen change, calls.Opens denominations ∧
    chooseInputs w calls (calls.opened item) = .ok chosen ∧
    selectChange fuel chosen denominations = .ok change ∧
    prepareSwap w calls chosen change = .ok prepared

structure Safe [Inhabited R] (item : Option (WalletState R)) : Prop where
  /-- An item that cannot be read holds no unspent proof. -/
  loads : ∀ denominations, calls.Opens denominations → calls.loads = true ∨
    ∀ info ∈ (item.getD default).proofs, info.state ≠ .unspent
  /-- Where there is change, zero is not among the denominations. -/
  positive : ∀ denominations chosen, calls.Opens denominations →
    chooseInputs w calls (calls.opened item) = .ok chosen → 0 < chosen.changeAmount →
      (0 : Amount) ∉ denominations
  /-- The sum of posted inputs does not wrap. -/
  fits : ∀ fuel prepared, Prepares w calls fuel item prepared → calls.savesPending = true →
    Amount.total (prepared.request.inputs.map Proof.amount) < 2 ^ 64
  /-- After an accepted swap and the deletion of its inputs nothing fails. -/
  finishes : ∀ fuel prepared signatures, Prepares w calls fuel item prepared →
    calls.savesPending = true → calls.postSwap prepared.request = some signatures →
    calls.savesDeleted = true → Finishes w calls prepared signatures

end Swap

/-! ## Selecting denominations -/

section Denominations

variable {amount : Amount} {fuel target : Nat} {s s' : Nat × List Amount}
  {available selected : List Amount}

theorem takeAmount_total (h : takeAmount amount fuel s = some s') :
    s'.1 + Amount.total s'.2 = s.1 + Amount.total s.2 := by
  induction fuel generalizing s with
  | zero => cases h
  | succ fuel ih =>
      rw [takeAmount] at h
      split at h
      next hle =>
        rw [ih h, Amount.total_append, Amount.total_cons, Amount.total_nil]
        omega
      next =>
        cases h
        rfl

/-- A positive amount is taken until less than it remains. -/
theorem exists_takeAmount (hpos : 0 < amount.toNat) (hfuel : s.1 < fuel) :
    ∃ s', takeAmount amount fuel s = some s' ∧ s'.1 ≤ s.1 := by
  induction fuel generalizing s with
  | zero => exact absurd hfuel (Nat.not_lt_zero _)
  | succ fuel ih =>
      rw [takeAmount]
      split
      next hle =>
        obtain ⟨s', hs', hle'⟩ := @ih (s.1 - amount.toNat, s.2 ++ [amount])
          (show s.1 - amount.toNat < fuel by omega)
        exact ⟨s', hs', hle'.trans (Nat.sub_le _ _)⟩
      next => exact ⟨s, rfl, Nat.le_refl _⟩

/-- Zero is taken for ever. -/
theorem takeAmount_zero : takeAmount 0 fuel s = none := by
  induction fuel generalizing s with
  | zero => rfl
  | succ fuel ih =>
      rw [takeAmount, if_pos (show (0 : Amount).toNat ≤ s.1 from Nat.zero_le _)]
      exact ih

theorem foldlM_takeAmount_total
    (h : available.foldlM (fun s amount => takeAmount amount fuel s) s = some s') :
    s'.1 + Amount.total s'.2 = s.1 + Amount.total s.2 := by
  induction available generalizing s with
  | nil =>
      cases h
      rfl
  | cons amount rest ih =>
      rw [List.foldlM_cons] at h
      obtain ⟨next, hnext, hrest⟩ := Option.bind_eq_some_iff.mp h
      rw [ih hrest, takeAmount_total hnext]

theorem exists_foldlM_takeAmount (hpos : ∀ amount ∈ available, 0 < amount.toNat)
    (hfuel : s.1 < fuel) :
    ∃ s', available.foldlM (fun s amount => takeAmount amount fuel s) s = some s' := by
  induction available generalizing s with
  | nil => exact ⟨s, rfl⟩
  | cons amount rest ih =>
      obtain ⟨next, hnext, hle⟩ := exists_takeAmount (hpos amount List.mem_cons_self) hfuel
      obtain ⟨s', hs'⟩ := ih (fun a ha => hpos a (List.mem_cons_of_mem amount ha))
        (hle.trans_lt hfuel)
      exact ⟨s', by rw [List.foldlM_cons, hnext]; exact hs'⟩

theorem foldlM_takeAmount_zero (h : (0 : Amount) ∈ available) :
    available.foldlM (fun s amount => takeAmount amount fuel s) s = none := by
  induction available generalizing s with
  | nil => cases h
  | cons amount rest ih =>
      rw [List.foldlM_cons]
      rcases List.mem_cons.mp h with rfl | h
      · rw [takeAmount_zero]
        rfl
      · cases takeAmount amount fuel s with
        | none => rfl
        | some next => exact ih h

/-- The selected denominations are worth the target. -/
theorem selectDenominations_total (h : selectDenominations fuel target available = .ok selected) :
    Amount.total selected = target := by
  rw [selectDenominations] at h
  split at h
  next => cases h
  next remaining found hfound =>
    have htotal := foldlM_takeAmount_total hfound
    split at h
    next => cases h
    next hzero =>
      cases h
      rw [Amount.total_nil] at htotal
      dsimp only at htotal
      omega

/-- The loop runs out of any fuel if zero is among the denominations. -/
theorem selectDenominations_zero (h : (0 : Amount) ∈ available) :
    selectDenominations fuel target available = .err .outOfFuel := by
  have hmem : (0 : Amount) ∈ available.mergeSort fun a b => b ≤ a := List.mem_mergeSort.mpr h
  simp only [selectDenominations, foldlM_takeAmount_zero hmem]

/-- Without zero the loop ends with more fuel than the target. -/
theorem selectDenominations_ends (h : (0 : Amount) ∉ available) (hfuel : target < fuel) :
    selectDenominations fuel target available ≠ .err .outOfFuel := by
  have hpos : ∀ amount ∈ available.mergeSort fun a b => b ≤ a, 0 < amount.toNat := by
    intro amount hamount
    apply Nat.pos_of_ne_zero
    intro hzero
    have heq : amount = 0 := Amount.ext_toNat hzero
    exact h (heq ▸ List.mem_mergeSort.mp hamount)
  obtain ⟨⟨remaining, found⟩, hfound⟩ := @exists_foldlM_takeAmount fuel (target, []) _ hpos hfuel
  simp only [selectDenominations, hfound]
  split <;> nofun

end Denominations

/-! ## The request -/

section Request

variable {R : Type} {w : Wallet} {calls : Calls} {state : WalletState R} {fuel : Nat}
  {chosen : Chosen} {change denominations : List Amount} {prepared : Prepared}

/-- What picked proofs are worth. -/
def infosTotal (infos : List ProofInfo) : Nat :=
  Amount.total (infos.map fun info => info.proof.amount)

/-- The picked proofs are some of the proofs, and their sum has wrapped. -/
theorem pickInputs_spec (infos : List ProofInfo) {inputTotal : Nat} (h : inputTotal < 2 ^ 64) :
    (pickInputs infos inputTotal).1.Sublist infos ∧
      (pickInputs infos inputTotal).2 =
        (inputTotal + infosTotal (pickInputs infos inputTotal).1) % 2 ^ 64 := by
  induction infos generalizing inputTotal with
  | nil => exact ⟨List.Sublist.refl _, (Nat.mod_eq_of_lt h).symm⟩
  | cons info rest ih =>
      rw [pickInputs]
      split
      next => exact ⟨List.nil_sublist _, (Nat.mod_eq_of_lt h).symm⟩
      next =>
        obtain ⟨hsub, htotal⟩ :=
          ih (Nat.mod_lt (inputTotal + info.proof.amount.toNat) (Nat.two_pow_pos 64))
        refine ⟨hsub.cons_cons info, ?_⟩
        dsimp only
        rw [htotal, infosTotal, infosTotal, List.map_cons, Amount.total_cons, Nat.mod_add_mod,
          Nat.add_assoc]

/-- Outputs have the amounts asked for, and drawn secrets. -/
theorem preMints_spec {id : Id} {parts : List Amount} {drawn : Nat → Option (String × BitVec 256)}
    {preMints : List Wallet.PreMint}
    (h : (parts.zipIdx.mapM fun part => w.preMint id part.1 (drawn part.2)) = .ok preMints) :
    preMints.map (fun preMint => preMint.blindedMessage.amount) = parts ∧
      ∀ preMint ∈ preMints, ∃ n r, drawn n = some (preMint.secret, r) := by
  have hround (part : Amount × Nat) (preMint : Wallet.PreMint)
      (hpreMint : w.preMint id part.1 (drawn part.2) = .ok preMint) :
      preMint.blindedMessage.amount = part.1 ∧
        ∃ n r, drawn n = some (preMint.secret, r) := by
    simp only [Wallet.preMint, Outcome.bind_eq_ok, Outcome.ofOption_eq_ok,
      Outcome.ok.injEq] at hpreMint
    obtain ⟨⟨secret, r⟩, hdrawn, blinded, -, rfl⟩ := hpreMint
    exact ⟨rfl, part.2, r, hdrawn⟩
  constructor
  · have hamounts := Outcome.map_of_mapM (k := Prod.fst) h
      fun part preMint hpreMint => (hround part preMint hpreMint).1
    rw [hamounts]
    exact List.zipIdx_map_fst 0 parts
  · intro preMint hmem
    obtain ⟨part, -, hpreMint⟩ := Outcome.exists_of_mem_mapM h hmem
    exact (hround part preMint hpreMint).2

/-- What is chosen: inputs that are unspent, their sum, which may have wrapped, and two outputs. -/
structure ChosenFrom (state : WalletState R) (chosen : Chosen) : Prop where
  unspent : ∀ info ∈ chosen.inputs, info ∈ state.proofs ∧ info.state = .unspent
  inputTotal : chosen.inputTotal = infosTotal chosen.inputs % 2 ^ 64
  enough : totalP2pk ≤ chosen.inputTotal
  p2pk : chosen.p2pk.map (fun preMint => preMint.blindedMessage.amount) = p2pkAmounts

theorem chosenFrom_of_ok (h : chooseInputs w calls state = .ok chosen) :
    ChosenFrom state chosen := by
  simp only [chooseInputs, Outcome.bind_eq_ok, Outcome.ensure_eq_ok, Outcome.mapErr_eq_ok,
    Outcome.ok.injEq] at h
  obtain ⟨alicePk, -, bobPk, -, -, henough, keysets, -, keyset, -, p2pk, hp2pk, rfl⟩ := h
  obtain ⟨hsub, htotal⟩ := pickInputs_spec (unspentProofs w state) (Nat.two_pow_pos 64)
  refine ⟨?_, ?_, by simpa using henough, (preMints_spec hp2pk).1⟩
  · intro info hinfo
    obtain ⟨hmem, hmatch⟩ := List.mem_filter.mp (hsub.subset hinfo)
    rw [Bool.and_eq_true] at hmatch
    exact ⟨hmem, by simpa using hmatch.2⟩
  · rw [Nat.zero_add] at htotal
    exact htotal

theorem ChosenFrom.nonempty (h : ChosenFrom state chosen) : chosen.inputs ≠ [] := by
  intro hnil
  have hzero : chosen.inputTotal = 0 := by
    rw [h.inputTotal, hnil]
    rfl
  have henough := h.enough
  rw [hzero] at henough
  cases henough

/-- What is prepared: inputs that are unspent, outputs that are worth their wrapped sum, and change
with generated secrets. -/
structure PreparedFrom (calls : Calls) (state : WalletState R) (prepared : Prepared) : Prop where
  unspent : ∀ info ∈ prepared.inputs, info ∈ state.proofs ∧ info.state = .unspent
  nonempty : prepared.inputs ≠ []
  outputs : Amount.total (prepared.request.outputs.map BlindedMessage.amount) =
    Amount.total (prepared.request.inputs.map Proof.amount) % 2 ^ 64
  change : ∀ preMint ∈ prepared.preMints.drop 2, ∃ n, preMint.secret = (calls.generate n).1

theorem selectChange_total (h : selectChange fuel chosen denominations = .ok change) :
    Amount.total change = chosen.changeAmount := by
  rw [selectChange] at h
  split at h
  next => exact selectDenominations_total h
  next hzero =>
    cases h
    exact (Nat.eq_zero_of_not_pos hzero).symm

theorem preparedFrom_of_ok (hchosen : ChosenFrom state chosen)
    (hchange : selectChange fuel chosen denominations = .ok change)
    (hprepared : prepareSwap w calls chosen change = .ok prepared) :
    PreparedFrom calls state prepared := by
  simp only [prepareSwap, Outcome.bind_eq_ok, Outcome.mapErr_eq_ok, Outcome.ok.injEq] at hprepared
  obtain ⟨preMints, hpreMints, rfl⟩ := hprepared
  obtain ⟨hamounts, hsecrets⟩ :=
    @preMints_spec w chosen.keysetId change (fun n => some (calls.generate n)) preMints hpreMints
  have henough := hchosen.enough
  refine ⟨hchosen.unspent, hchosen.nonempty, ?_, ?_⟩
  · have houtputs : (chosen.p2pk ++ preMints).map
        (fun preMint => preMint.blindedMessage.amount) = p2pkAmounts ++ change := by
      rw [List.map_append, hchosen.p2pk, hamounts]
    have hinputs : (chosen.inputs.map fun info => info.proof.toProof).map Proof.amount =
        chosen.inputs.map fun info => info.proof.amount := by
      rw [List.map_map]
      rfl
    rw [Prepared.request, List.map_map, hinputs]
    calc Amount.total ((chosen.p2pk ++ preMints).map
          (fun preMint => preMint.blindedMessage.amount))
      _ = Amount.total p2pkAmounts + Amount.total change := by
        rw [houtputs, Amount.total_append]
      _ = totalP2pk + chosen.changeAmount := by
        rw [selectChange_total hchange]
        rfl
      _ = chosen.inputTotal := by
        rw [Chosen.changeAmount]
        omega
      _ = Amount.total (chosen.inputs.map fun info => info.proof.amount) % 2 ^ 64 :=
        hchosen.inputTotal
  · have hlength : chosen.p2pk.length = 2 := by
      rw [← List.length_map (fun preMint => preMint.blindedMessage.amount), hchosen.p2pk]
      rfl
    intro preMint hpreMint
    dsimp only at hpreMint
    rw [← hlength, List.drop_left] at hpreMint
    obtain ⟨n, r, hdrawn⟩ := hsecrets preMint hpreMint
    exact ⟨n, by rw [Option.some.inj hdrawn]⟩

end Request

/-! ## Storing the change -/

section Finish

variable {R : Type} {w : Wallet} {calls : Calls} {page page' : Page R} {n : Nat}
  {proofs returned : List Proof} {prepared : Prepared} {signatures : List BlindSignature}

/-- Entries for proofs of a list are added to the item, and nothing else is changed. -/
structure Stores (w : Wallet) (proofs : List Proof) (page page' : Page R) : Prop where
  posted : page'.posted = page.posted
  item : ∃ state infos, page'.item = some state ∧ state.proofs = page.copy.proofs ++ infos ∧
    ∀ info ∈ infos, ∃ p ∈ proofs, w.proofInfo .unspent p = .ok info

theorem stores_refl (hitem : page.item = some page.copy) : Stores w proofs page page :=
  ⟨rfl, page.copy, [], hitem, (List.append_nil _).symm, fun _ h => nomatch h⟩

theorem updateProofs_nil (state : WalletState R) (info : ProofInfo) :
    (state.updateProofs [info] []).proofs = state.proofs ++ [info] := by
  simp [WalletState.updateProofs]

/-- The page after an entry is stored. -/
def Page.addChange (page : Page R) (info : ProofInfo) : Page R :=
  { page with
    item := some (page.copy.updateProofs [info] [])
    copy := page.copy.updateProofs [info] [] }

theorem storeChange_cons_ok {p : Proof} {info : ProofInfo}
    (hinfo : w.proofInfo .unspent p = .ok info) (hsaves : calls.savesChange n = true) :
    storeChange w calls n (p :: proofs) page =
      storeChange w calls (n + 1) proofs (page.addChange info) := by
  have hsaved : changeCopy (·.updateProofs [info] []) (calls.savesChange n) .storeChange page =
      (.ok (), page.addChange info) := by
    rw [hsaves]
    rfl
  rw [storeChange, Proc.lift_bind_of_ok (Outcome.mapErr_eq_ok.mpr hinfo), Proc.bind_of_ok hsaved]

theorem storeChange_stores (hitem : page.item = some page.copy) :
    Stores w proofs page (storeChange w calls n proofs page).2 := by
  induction proofs generalizing page n with
  | nil => exact stores_refl hitem
  | cons p rest ih =>
      cases hinfo : w.proofInfo .unspent p with
      | err e =>
          rw [storeChange, hinfo]
          exact stores_refl hitem
      | panic =>
          rw [storeChange, hinfo]
          exact stores_refl hitem
      | ok info =>
          cases hsaves : calls.savesChange n with
          | false =>
              rw [storeChange, hinfo, hsaves]
              exact ⟨rfl, page.copy, [], hitem, (List.append_nil _).symm, fun _ h => nomatch h⟩
          | true =>
              rw [storeChange_cons_ok hinfo hsaves]
              obtain ⟨hposted, state, infos, hstate, hproofs, hinfos⟩ :=
                @ih (page.addChange info) (n + 1) rfl
              refine ⟨hposted, state, info :: infos, hstate, ?_, ?_⟩
              · rw [hproofs, Page.addChange, updateProofs_nil, List.append_assoc,
                  List.singleton_append]
              · intro info' hinfo'
                rcases List.mem_cons.mp hinfo' with rfl | hinfo'
                · exact ⟨p, List.mem_cons_self, hinfo⟩
                · obtain ⟨p', hp', hmade⟩ := hinfos info' hinfo'
                  exact ⟨p', List.mem_cons_of_mem p hp', hmade⟩

/-- The loop comes to its end exactly if every entry is made and saved. -/
theorem storeChange_ok_iff : (storeChange w calls n proofs page).1 = .ok () ↔
    (∀ p ∈ proofs, ∃ info, w.proofInfo .unspent p = .ok info) ∧
      ∀ i < proofs.length, calls.savesChange (n + i) = true := by
  induction proofs generalizing page n with
  | nil => exact iff_of_true rfl ⟨fun _ h => (nomatch h), fun _ h => (nomatch h)⟩
  | cons p rest ih =>
      cases hinfo : w.proofInfo .unspent p with
      | err e =>
          rw [storeChange, hinfo]
          refine iff_of_false nofun fun h => ?_
          obtain ⟨info, hok⟩ := h.1 p List.mem_cons_self
          cases hinfo.symm.trans hok
      | panic =>
          rw [storeChange, hinfo]
          refine iff_of_false nofun fun h => ?_
          obtain ⟨info, hok⟩ := h.1 p List.mem_cons_self
          cases hinfo.symm.trans hok
      | ok info =>
          cases hsaves : calls.savesChange n with
          | false =>
              rw [storeChange, hinfo, hsaves]
              refine iff_of_false nofun fun h => ?_
              cases hsaves.symm.trans (h.2 0 (Nat.zero_lt_succ _))
          | true =>
              rw [storeChange_cons_ok hinfo hsaves, ih, List.forall_mem_cons]
              constructor
              · rintro ⟨hinfos, hsaved⟩
                refine ⟨⟨⟨info, hinfo⟩, hinfos⟩, ?_⟩
                intro i hi
                cases i with
                | zero => exact hsaves
                | succ i =>
                    rw [Nat.add_comm i 1, ← Nat.add_assoc]
                    exact hsaved i (Nat.lt_of_succ_lt_succ hi)
              · rintro ⟨⟨-, hinfos⟩, hsaved⟩
                refine ⟨hinfos, fun i hi => ?_⟩
                rw [Nat.add_assoc, Nat.add_comm 1 i]
                exact hsaved (i + 1) (Nat.succ_lt_succ hi)

/-- A loop that comes to its end has stored an entry for each proof, and none is taken out. -/
theorem storeChange_stored (hok : (storeChange w calls n proofs page).1 = .ok ())
    (hitem : page.item = some page.copy) :
    ∃ state, (storeChange w calls n proofs page).2.item = some state ∧
      (∀ info ∈ page.copy.proofs, info ∈ state.proofs) ∧
      ∀ p ∈ proofs, ∃ info ∈ state.proofs, w.proofInfo .unspent p = .ok info := by
  induction proofs generalizing page n with
  | nil => exact ⟨page.copy, hitem, fun _ h => h, fun _ h => nomatch h⟩
  | cons p rest ih =>
      obtain ⟨hinfos, hsaved⟩ := storeChange_ok_iff.mp hok
      obtain ⟨info, hinfo⟩ := hinfos p List.mem_cons_self
      have hsaves : calls.savesChange n = true := hsaved 0 (Nat.zero_lt_succ _)
      rw [storeChange_cons_ok hinfo hsaves] at hok ⊢
      obtain ⟨state, hstate, hkept, hstored⟩ := ih hok rfl
      rw [Page.addChange, updateProofs_nil] at hkept
      refine ⟨state, hstate, fun i hi => hkept i (List.mem_append_left _ hi), ?_⟩
      rw [List.forall_mem_cons]
      exact ⟨⟨info, hkept info (List.mem_append_right _ List.mem_cons_self), hinfo⟩, hstored⟩

/-- The last steps, after the outputs are made. -/
theorem finishSwap_page {allKeys : List (Id × (Amount → Option PublicKey))}
    {mintKeys : Id × (Amount → Option PublicKey)} (hkeys : calls.getMintKeys = some allKeys)
    (hfind : allKeys.find? (fun k => k.1 = prepared.keysetId) = some mintKeys)
    (hproofs : w.constructProofs signatures (prepared.preMints.map Wallet.PreMint.r)
      (prepared.preMints.map Wallet.PreMint.secret) mintKeys.2 = .ok proofs) :
    finishSwap w calls prepared signatures page =
      ((do
        storeChange w calls 0 (proofs.drop 2)
        .lift (.ensure calls.returnsProofs .returnProofs)
        pure (proofs.take 2) : Proc (Page R) Failure (List Proof)) page) := by
  rw [finishSwap, Proc.lift_bind_of_ok (Outcome.ofOption_eq_ok.mpr hkeys),
    Proc.lift_bind_of_ok (Outcome.ofOption_eq_ok.mpr hfind),
    Proc.lift_bind_of_ok (Outcome.mapErr_eq_ok.mpr hproofs)]

/-- Change of a request is added to the item, and nothing else is changed. -/
structure AddsChange (prepared : Prepared) (page page' : Page R) : Prop where
  posted : page'.posted = page.posted
  item : ∃ state infos, page'.item = some state ∧ state.proofs = page.copy.proofs ++ infos ∧
    ∀ info ∈ infos, ∃ preMint ∈ prepared.preMints.drop 2, info.proof.secret = preMint.secret

theorem addsChange_refl (hitem : page.item = some page.copy) : AddsChange prepared page page :=
  ⟨rfl, page.copy, [], hitem, (List.append_nil _).symm, fun _ h => nomatch h⟩

/-- The change has the secrets of its outputs. -/
theorem addsChange_of_stores {keys : Amount → Option PublicKey}
    (hproofs : w.constructProofs signatures (prepared.preMints.map Wallet.PreMint.r)
      (prepared.preMints.map Wallet.PreMint.secret) keys = .ok proofs)
    (h : Stores w (proofs.drop 2) page page') : AddsChange prepared page page' := by
  obtain ⟨hposted, state, infos, hstate, happend, hinfos⟩ := h
  refine ⟨hposted, state, infos, hstate, happend, fun info hinfo => ?_⟩
  obtain ⟨p, hp, hmade⟩ := hinfos info hinfo
  have hsecrets := (Wallet.constructProofs_spec hproofs).2.2
  have hmem : p.secret ∈ (prepared.preMints.drop 2).map Wallet.PreMint.secret := by
    rw [List.map_drop, ← hsecrets, ← List.map_drop]
    exact List.mem_map_of_mem hp
  obtain ⟨preMint, hpreMint, heq⟩ := List.mem_map.mp hmem
  refine ⟨preMint, hpreMint, ?_⟩
  rw [heq, ← (Wallet.proofInfo_eq_ok hmade).2.1]

/-- Whatever fails, only change is added to the item. -/
theorem finishSwap_addsChange (hitem : page.item = some page.copy) :
    AddsChange prepared page (finishSwap w calls prepared signatures page).2 := by
  cases hkeys : calls.getMintKeys with
  | none =>
      rw [finishSwap, hkeys]
      exact addsChange_refl hitem
  | some allKeys =>
      cases hfind : allKeys.find? (fun k => k.1 = prepared.keysetId) with
      | none =>
          rw [finishSwap, Proc.lift_bind_of_ok (Outcome.ofOption_eq_ok.mpr hkeys), hfind]
          exact addsChange_refl hitem
      | some mintKeys =>
          cases hproofs : w.constructProofs signatures (prepared.preMints.map Wallet.PreMint.r)
              (prepared.preMints.map Wallet.PreMint.secret) mintKeys.2 with
          | err e =>
              rw [finishSwap, Proc.lift_bind_of_ok (Outcome.ofOption_eq_ok.mpr hkeys),
                Proc.lift_bind_of_ok (Outcome.ofOption_eq_ok.mpr hfind), hproofs]
              exact addsChange_refl hitem
          | panic =>
              rw [finishSwap, Proc.lift_bind_of_ok (Outcome.ofOption_eq_ok.mpr hkeys),
                Proc.lift_bind_of_ok (Outcome.ofOption_eq_ok.mpr hfind), hproofs]
              exact addsChange_refl hitem
          | ok proofs =>
              rw [finishSwap_page hkeys hfind hproofs]
              have hstores := @storeChange_stores R w calls page 0 (proofs.drop 2) hitem
              rcases hrun : storeChange w calls 0 (proofs.drop 2) page with ⟨_ | e | _, page'⟩
              · rw [hrun] at hstores
                rw [Proc.bind_of_ok hrun]
                cases calls.returnsProofs <;> exact addsChange_of_stores hproofs hstores
              · rw [hrun] at hstores
                rw [Proc.bind_of_err hrun]
                exact addsChange_of_stores hproofs hstores
              · rw [hrun] at hstores
                rw [Proc.bind_of_panic hrun]
                exact addsChange_of_stores hproofs hstores

/-- Proofs are returned only if every call succeeds. -/
theorem finishes_of_ok
    (h : (finishSwap w calls prepared signatures page).1 = .ok returned) :
    Finishes w calls prepared signatures := by
  have hrun : finishSwap w calls prepared signatures page =
      (.ok returned, (finishSwap w calls prepared signatures page).2) := Prod.ext h rfl
  simp only [finishSwap, Proc.lift_bind_ok, Outcome.ofOption_eq_ok, Outcome.mapErr_eq_ok] at hrun
  obtain ⟨allKeys, hkeys, mintKeys, hfind, proofs, hproofs, hrun⟩ := hrun
  obtain ⟨_, page', hstored, hrun⟩ := Proc.bind_ok.mp hrun
  obtain ⟨_, hreturned, -⟩ := Proc.lift_bind_ok.mp hrun
  rw [Outcome.ensure_eq_ok] at hreturned
  obtain ⟨hinfos, hsaved⟩ := storeChange_ok_iff.mp (congrArg Prod.fst hstored)
  refine ⟨⟨allKeys, mintKeys, proofs, hkeys, hfind, hproofs, hinfos, fun n hn => ?_⟩, hreturned⟩
  have hn := hsaved n hn
  rwa [Nat.zero_add] at hn

/-- If every call succeeds, the change is stored and the other outputs are returned. -/
theorem finishSwap_ok (h : Finishes w calls prepared signatures)
    (hitem : page.item = some page.copy) :
    ∃ keys proofs state, w.constructProofs signatures (prepared.preMints.map Wallet.PreMint.r)
        (prepared.preMints.map Wallet.PreMint.secret) keys = .ok proofs ∧
      (finishSwap w calls prepared signatures page).1 = .ok (proofs.take 2) ∧
      (finishSwap w calls prepared signatures page).2.item = some state ∧
      (∀ info ∈ page.copy.proofs, info ∈ state.proofs) ∧
      ∀ p ∈ proofs.drop 2, ∃ info ∈ state.proofs, w.proofInfo .unspent p = .ok info := by
  obtain ⟨⟨allKeys, mintKeys, proofs, hkeys, hfind, hproofs, hinfos, hsaved⟩, hreturned⟩ := h
  have hok : (storeChange w calls 0 (proofs.drop 2) page).1 = .ok () := by
    refine storeChange_ok_iff.mpr ⟨hinfos, fun i hi => ?_⟩
    rw [Nat.zero_add]
    exact hsaved i hi
  obtain ⟨state, hstate, hkept, hstored⟩ := storeChange_stored hok hitem
  have hrun : storeChange w calls 0 (proofs.drop 2) page =
      (.ok (), (storeChange w calls 0 (proofs.drop 2) page).2) := Prod.ext hok rfl
  refine ⟨mintKeys.2, proofs, state, hproofs, ?_, ?_, hkept, hstored⟩
  · rw [finishSwap_page hkeys hfind hproofs, Proc.bind_of_ok hrun, hreturned]
    rfl
  · rw [finishSwap_page hkeys hfind hproofs, Proc.bind_of_ok hrun, hreturned]
    exact hstate

end Finish

/-! ## The steps of a run -/

section Run

variable {R : Type} {w : Wallet} {calls : Calls} {item : Option (WalletState R)}
  {page : Page R} {state : WalletState R} {fuel : Nat} {denominations change : List Amount}
  {chosen : Chosen} {prepared : Prepared} {signatures : List BlindSignature}

theorem swapOpened_of_chosen (hchosen : chooseInputs w calls page.copy = .ok chosen) :
    swapOpened w calls fuel denominations page =
      ((do
        let change ← .lift (selectChange fuel chosen denominations)
        let prepared ← .mapErr .failed (.lift (prepareSwap w calls chosen change))
        .mapErr .failed (swapPrepared w calls prepared) : Proc (Page R) Error (List Proof))
          page) := by
  refine Proc.bind_of_ok (Proc.mapErr_ok.mpr ?_)
  exact congrArg (·, page) hchosen

theorem swapOpened_of_prepared (hchosen : chooseInputs w calls page.copy = .ok chosen)
    (hchange : selectChange fuel chosen denominations = .ok change)
    (hprepared : prepareSwap w calls chosen change = .ok prepared) :
    swapOpened w calls fuel denominations page =
      Proc.mapErr .failed (swapPrepared w calls prepared) page := by
  rw [swapOpened_of_chosen hchosen, Proc.lift_bind_of_ok hchange]
  refine Proc.bind_of_ok (Proc.mapErr_ok.mpr ?_)
  exact congrArg (·, page) hprepared

theorem mapErr_failed_ne {α : Type} (x : Outcome Failure α) :
    x.mapErr Error.failed ≠ .err .outOfFuel := by
  cases x <;> nofun

/-- The request is made, or the page stays as it is. -/
theorem swapOpened_cases (page : Page R) :
    (∃ chosen change prepared, chooseInputs w calls page.copy = .ok chosen ∧
      selectChange fuel chosen denominations = .ok change ∧
      prepareSwap w calls chosen change = .ok prepared) ∨
    (swapOpened w calls fuel denominations page).2 = page ∧
      ((swapOpened w calls fuel denominations page).1 = .err .outOfFuel →
        ∃ chosen, chooseInputs w calls page.copy = .ok chosen ∧
          selectChange fuel chosen denominations = .err .outOfFuel) := by
  cases hchosen : chooseInputs w calls page.copy with
  | err e =>
      have hrun : swapOpened w calls fuel denominations page = (.err (.failed e), page) :=
        Proc.bind_of_err (congrArg (fun x => (x.mapErr Error.failed, page)) hchosen)
      rw [hrun]
      exact .inr ⟨rfl, nofun⟩
  | panic =>
      have hrun : swapOpened w calls fuel denominations page = (.panic, page) :=
        Proc.bind_of_panic (congrArg (fun x => (x.mapErr Error.failed, page)) hchosen)
      rw [hrun]
      exact .inr ⟨rfl, nofun⟩
  | ok chosen =>
      rw [swapOpened_of_chosen hchosen]
      cases hchange : selectChange fuel chosen denominations with
      | err e =>
          rw [Proc.lift_bind_of_err rfl]
          refine .inr ⟨rfl, fun h => ⟨chosen, rfl, ?_⟩⟩
          rw [hchange]
          exact congrArg Outcome.err (Outcome.err.inj h)
      | panic =>
          rw [Proc.lift_bind_of_panic rfl]
          exact .inr ⟨rfl, nofun⟩
      | ok change =>
          rw [Proc.lift_bind_of_ok rfl]
          cases hprepared : prepareSwap w calls chosen change with
          | ok prepared => exact .inl ⟨chosen, change, prepared, rfl, hchange, hprepared⟩
          | err e =>
              rw [Proc.bind_of_err (x := Proc.mapErr _ _) (s := page) rfl]
              exact .inr ⟨rfl, nofun⟩
          | panic =>
              rw [Proc.bind_of_panic (x := Proc.mapErr _ _) (s := page) rfl]
              exact .inr ⟨rfl, nofun⟩

/-- The state with the inputs pending. -/
def Prepared.pending (prepared : Prepared) (state : WalletState R) : WalletState R :=
  state.updateProofsState prepared.inputYs .pending

/-- The state without the inputs. -/
def Prepared.deleted (prepared : Prepared) (state : WalletState R) : WalletState R :=
  (prepared.pending state).updateProofs [] prepared.inputYs

theorem swapPrepared_not_pending (h : calls.savesPending = false) :
    swapPrepared w calls prepared ⟨some state, state, none⟩ =
      (.err .swap, ⟨some state, prepared.pending state, none⟩) := by
  rw [swapPrepared, safeSwap, h]
  rfl

theorem swapPrepared_not_answered (hpending : calls.savesPending = true)
    (hanswer : calls.postSwap prepared.request = none) :
    swapPrepared w calls prepared ⟨some state, state, none⟩ =
      (.err .swap,
        ⟨some (prepared.pending state), prepared.pending state, some (prepared, none)⟩) := by
  rw [swapPrepared, safeSwap, hpending]
  dsimp only
  rw [hanswer]
  rfl

theorem swapPrepared_not_deleted (hpending : calls.savesPending = true)
    (hanswer : calls.postSwap prepared.request = some signatures)
    (hdeleted : calls.savesDeleted = false) :
    swapPrepared w calls prepared ⟨some state, state, none⟩ =
      (.err .swap, ⟨some (prepared.pending state), prepared.deleted state,
        some (prepared, some signatures)⟩) := by
  rw [swapPrepared, safeSwap, hpending, hdeleted]
  dsimp only
  rw [hanswer]
  rfl

theorem swapPrepared_deleted (hpending : calls.savesPending = true)
    (hanswer : calls.postSwap prepared.request = some signatures)
    (hdeleted : calls.savesDeleted = true) :
    swapPrepared w calls prepared ⟨some state, state, none⟩ =
      finishSwap w calls prepared signatures
        ⟨some (prepared.deleted state), prepared.deleted state,
          some (prepared, some signatures)⟩ := by
  rw [swapPrepared, safeSwap, hpending, hdeleted]
  dsimp only
  rw [hanswer]
  rfl

variable [Inhabited R]

/-- The store is opened, or the item stays as it is. -/
theorem openWallet_cases (copy : WalletState R) :
    (∃ denominations, calls.Opens denominations ∧ openWallet calls ⟨item, copy, none⟩ =
      (.ok denominations, ⟨some (calls.opened item), calls.opened item, none⟩)) ∨
    (∀ denominations, ¬calls.Opens denominations) ∧
      ∃ failure copy', openWallet calls ⟨item, copy, none⟩ = (.err failure, ⟨item, copy', none⟩) := by
  cases hd : calls.denominations with
  | none =>
      exact .inr ⟨fun d h => (nomatch hd.symm.trans h.denominations), _, copy,
        by rw [openWallet, hd]; rfl⟩
  | some denominations =>
      cases hurl : calls.parsesMintUrl with
      | false =>
          exact .inr ⟨fun d h => (nomatch hurl.symm.trans h.mintUrl), _, copy,
            by rw [openWallet, hd, hurl]; rfl⟩
      | true =>
          cases hseed : calls.parsesSeed with
          | false =>
              exact .inr ⟨fun d h => (nomatch hseed.symm.trans h.seed), _, copy,
                by rw [openWallet, hd, hurl, hseed]; rfl⟩
          | true =>
              cases hsaved : calls.savesOpened with
              | false =>
                  exact .inr ⟨fun d h => (nomatch hsaved.symm.trans h.saved), _, _,
                    by rw [openWallet, hd, hurl, hseed, hsaved]; rfl⟩
              | true =>
                  exact .inl ⟨denominations, ⟨hd, hurl, hseed, hsaved⟩,
                    by rw [openWallet, hd, hurl, hseed, hsaved]; rfl⟩

theorem run_of_opens (h : calls.Opens denominations) :
    run w calls fuel item = swapOpened w calls fuel denominations
      ⟨some (calls.opened item), calls.opened item, none⟩ := by
  have hopened : openWallet calls (⟨item, default, none⟩ : Page R) =
      (.ok denominations, ⟨some (calls.opened item), calls.opened item, none⟩) := by
    rw [openWallet, h.denominations, h.mintUrl, h.seed, h.saved]
    rfl
  exact Proc.bind_of_ok (Proc.mapErr_ok.mpr hopened)

end Run

/-! ## What becomes of the inputs -/

section Inputs

variable {R : Type} {state state' : WalletState R} {info : ProofInfo} {prepared : Prepared}

theorem stillStored_of_mem (hinfo : info ∈ state.proofs) (hunspent : info.state = .unspent) :
    StillStored info (some state) := ⟨state, rfl, info, hinfo, rfl, .inl hunspent⟩

theorem stillStored_self [Inhabited R] {item : Option (WalletState R)}
    (hinfo : info ∈ (item.getD default).proofs) (hunspent : info.state = .unspent) :
    StillStored info item := by
  cases item with
  | none => cases hinfo
  | some state => exact stillStored_of_mem hinfo hunspent

/-- A pending input is still there. -/
theorem stillStored_pending (hinfo : info ∈ state.proofs) (hunspent : info.state = .unspent) :
    StillStored info (some (prepared.pending state)) := by
  refine ⟨_, rfl, _, List.mem_map_of_mem hinfo, ?_⟩
  split
  next => exact ⟨rfl, .inr rfl⟩
  next => exact ⟨rfl, .inl hunspent⟩

/-- What is not an input is not deleted. -/
theorem mem_deleted (hinfo : info ∈ state.proofs) (hy : info.y ∉ prepared.inputYs) :
    info ∈ (prepared.deleted state).proofs := by
  refine List.mem_append_left _ (List.mem_filter.mpr ⟨?_, by simpa using hy⟩)
  have hmem := List.mem_map_of_mem
    (f := fun p => if prepared.inputYs.contains p.y then p.setState .pending else p) hinfo
  rwa [if_neg (by simpa using hy)] at hmem

theorem not_mem_deleted (hy : info.y ∈ prepared.inputYs) :
    info ∉ (prepared.deleted state).proofs := by
  intro hmem
  rcases List.mem_append.mp hmem with hmem | hmem
  · have hkept := (List.mem_filter.mp hmem).2
    simp [hy] at hkept
  · cases hmem

end Inputs

/-! ## When a run keeps the value -/

section Main

variable {R : Type} [Inhabited R] {w : Wallet} {calls : Calls} {item : Option (WalletState R)}
  {fuel : Nat} {prepared : Prepared} {signatures : List BlindSignature} {info : ProofInfo}
  {r : Outcome Error (List Proof) × Page R}

theorem run_of_prepares (h : Prepares w calls fuel item prepared) :
    run w calls fuel item = Proc.mapErr .failed (swapPrepared w calls prepared)
      ⟨some (calls.opened item), calls.opened item, none⟩ := by
  obtain ⟨denominations, chosen, change, hopens, hchosen, hchange, hprepared⟩ := h
  rw [run_of_opens hopens]
  exact swapOpened_of_prepared hchosen hchange hprepared

theorem ends_of_prepares (h : Prepares w calls fuel item prepared) :
    (run w calls fuel item).1 ≠ .err .outOfFuel := by
  rw [run_of_prepares h]
  exact mapErr_failed_ne _

theorem preparedFrom_of_prepares (h : Prepares w calls fuel item prepared) :
    PreparedFrom calls (calls.opened item) prepared := by
  obtain ⟨denominations, chosen, change, -, hchosen, hchange, hprepared⟩ := h
  exact preparedFrom_of_ok (chosenFrom_of_ok hchosen) hchange hprepared

/-- What an instance starts from are proofs of the item. -/
theorem mem_of_opened (h : info ∈ (calls.opened item).proofs) :
    info ∈ (item.getD default).proofs := by
  rw [Calls.opened] at h
  split at h
  next => exact h
  next => cases h

/-- An unspent proof of the item is read if the calls are safe. -/
theorem Safe.mem_opened (h : Safe w calls item) {denominations : List Amount}
    (hopens : calls.Opens denominations) (hinfo : info ∈ (item.getD default).proofs)
    (hunspent : info.state = .unspent) : info ∈ (calls.opened item).proofs := by
  rcases h.loads denominations hopens with hloads | hnone
  · rw [Calls.opened, if_pos hloads]
    exact hinfo
  · exact absurd hunspent (hnone info hinfo)

/-- Nothing is lost before the inputs are deleted. -/
theorem accounted_of_stored
    (hbalanced : ∀ posted ∈ r.2.posted,
      Amount.total (posted.1.request.outputs.map BlindedMessage.amount) =
        Amount.total (posted.1.request.inputs.map Proof.amount))
    (hstored : ∀ info ∈ (item.getD default).proofs, info.state = .unspent →
      StillStored info r.2.item) : Accounted w item r :=
  ⟨hbalanced, fun info hinfo hunspent => .inl (hstored info hinfo hunspent)⟩

/-- After the deletion the outputs are held if nothing fails. -/
theorem outputsHeld_of_finishes (h : Finishes w calls prepared signatures)
    (hpending : calls.savesPending = true)
    (hanswer : calls.postSwap prepared.request = some signatures)
    (hdeleted : calls.savesDeleted = true) (hprepares : Prepares w calls fuel item prepared) :
    OutputsHeld w prepared signatures (run w calls fuel item) ∧
      ∀ info ∈ (calls.opened item).proofs, info.state = .unspent → info.y ∉ prepared.inputYs →
        StillStored info (run w calls fuel item).2.item := by
  obtain ⟨keys, proofs, state, hproofs, hreturned, hstate, hkept, hstored⟩ :=
    @finishSwap_ok R w calls ⟨some (prepared.deleted (calls.opened item)),
      prepared.deleted (calls.opened item), some (prepared, some signatures)⟩ prepared signatures
      h rfl
  rw [← swapPrepared_deleted hpending hanswer hdeleted] at hreturned hstate
  have hitem : (run w calls fuel item).2.item = some state := by
    rw [run_of_prepares hprepares]
    exact hstate
  constructor
  · refine ⟨keys, proofs, proofs.take 2, hproofs, ?_, fun p hp => ?_⟩
    · rw [run_of_prepares hprepares]
      exact Outcome.mapErr_eq_ok.mpr hreturned
    · rw [← List.take_append_drop 2 proofs] at hp
      rcases List.mem_append.mp hp with hp | hp
      · exact .inl hp
      · obtain ⟨info, hinfo, hmade⟩ := hstored p hp
        obtain ⟨-, hproof, -, hunspent⟩ := Wallet.proofInfo_eq_ok hmade
        exact .inr ⟨state, hitem, info, hinfo, hproof, hunspent⟩
  · intro info hinfo hunspent hy
    rw [hitem]
    exact stillStored_of_mem (hkept info (mem_deleted hinfo hy)) hunspent

/-- A posted request is the prepared one with the answer of the mint. -/
theorem posted_of_prepares (hpending : calls.savesPending = true)
    (hprepares : Prepares w calls fuel item prepared) :
    (run w calls fuel item).2.posted = some (prepared, calls.postSwap prepared.request) := by
  rw [run_of_prepares hprepares]
  change (swapPrepared w calls prepared _).2.posted = _
  cases hanswer : calls.postSwap prepared.request with
  | none =>
      rw [swapPrepared_not_answered hpending hanswer]
  | some signatures =>
      cases hdeleted : calls.savesDeleted with
      | false => rw [swapPrepared_not_deleted hpending hanswer hdeleted]
      | true =>
          rw [swapPrepared_deleted hpending hanswer hdeleted]
          exact (finishSwap_addsChange rfl).posted

theorem balanced_iff (hprepares : Prepares w calls fuel item prepared) :
    Amount.total (prepared.request.outputs.map BlindedMessage.amount) =
        Amount.total (prepared.request.inputs.map Proof.amount) ↔
      Amount.total (prepared.request.inputs.map Proof.amount) < 2 ^ 64 := by
  rw [(preparedFrom_of_prepares hprepares).outputs]
  exact Nat.mod_eq_iff_lt (by decide)

/-- A request that safe calls post accounts for every proof. -/
theorem accounted_of_prepares (h : Safe w calls item)
    (hprepares : Prepares w calls fuel item prepared) :
    Accounted w item (run w calls fuel item) := by
  obtain ⟨denominations, -, -, hopens, -⟩ := id hprepares
  cases hpending : calls.savesPending with
  | false =>
      rw [run_of_prepares hprepares, Proc.mapErr, swapPrepared_not_pending hpending]
      exact accounted_of_stored (by rintro _ ⟨⟩) fun info hinfo hunspent =>
        stillStored_of_mem (h.mem_opened hopens hinfo hunspent) hunspent
  | true =>
      have hposted := posted_of_prepares hpending hprepares
      have hbalanced : ∀ posted ∈ (run w calls fuel item).2.posted,
          Amount.total (posted.1.request.outputs.map BlindedMessage.amount) =
            Amount.total (posted.1.request.inputs.map Proof.amount) := by
        intro posted hmem
        rw [hposted] at hmem
        cases hmem
        exact (balanced_iff hprepares).mpr (h.fits fuel prepared hprepares hpending)
      cases hanswer : calls.postSwap prepared.request with
      | none =>
          have hitem : (run w calls fuel item).2.item =
              some (prepared.pending (calls.opened item)) := by
            rw [run_of_prepares hprepares, Proc.mapErr, swapPrepared_not_answered hpending hanswer]
          refine accounted_of_stored hbalanced fun info hinfo hunspent => ?_
          rw [hitem]
          exact stillStored_pending (h.mem_opened hopens hinfo hunspent) hunspent
      | some signatures =>
          cases hdeleted : calls.savesDeleted with
          | false =>
              have hitem : (run w calls fuel item).2.item =
                  some (prepared.pending (calls.opened item)) := by
                rw [run_of_prepares hprepares, Proc.mapErr,
                  swapPrepared_not_deleted hpending hanswer hdeleted]
              refine accounted_of_stored hbalanced fun info hinfo hunspent => ?_
              rw [hitem]
              exact stillStored_pending (h.mem_opened hopens hinfo hunspent) hunspent
          | true =>
              obtain ⟨hheld, hkept⟩ := outputsHeld_of_finishes
                (h.finishes fuel prepared signatures hprepares hpending hanswer hdeleted)
                hpending hanswer hdeleted hprepares
              refine ⟨hbalanced, fun info hinfo hunspent => ?_⟩
              by_cases hy : info.y ∈ prepared.inputYs
              · exact .inr ⟨prepared, signatures, hanswer ▸ hposted, hy, hheld⟩
              · exact .inl (hkept info (h.mem_opened hopens hinfo hunspent) hunspent hy)

theorem accounted_of_safe (h : Safe w calls item) (fuel : Nat) :
    Accounted w item (run w calls fuel item) := by
  rcases @openWallet_cases R calls item _ default with ⟨denominations, hopens, -⟩ |
    ⟨-, failure, copy, hclosed⟩
  · rcases @swapOpened_cases R w calls fuel denominations
      ⟨some (calls.opened item), calls.opened item, none⟩ with
      ⟨chosen, change, prepared, hchosen, hchange, hprepared⟩ | ⟨hsame, -⟩
    · exact accounted_of_prepares h
        ⟨denominations, chosen, change, hopens, hchosen, hchange, hprepared⟩
    · rw [← run_of_opens hopens] at hsame
      refine accounted_of_stored ?_ fun info hinfo hunspent => ?_
      · rw [hsame]
        nofun
      · rw [hsame]
        exact stillStored_of_mem (h.mem_opened hopens hinfo hunspent) hunspent
  · have hrun : run w calls fuel item = (.err (.failed failure), ⟨item, copy, none⟩) :=
      Proc.bind_of_err (congrArg (fun x => (x.1.mapErr Error.failed, x.2)) hclosed)
    rw [hrun]
    exact accounted_of_stored nofun fun info hinfo hunspent => stillStored_self hinfo hunspent

/-- A run that runs out of fuel does so while it selects change. -/
theorem outOfFuel_cases (h : (run w calls fuel item).1 = .err .outOfFuel) :
    ∃ denominations chosen, calls.Opens denominations ∧
      chooseInputs w calls (calls.opened item) = .ok chosen ∧
      selectChange fuel chosen denominations = .err .outOfFuel := by
  rcases @openWallet_cases R calls item _ default with ⟨denominations, hopens, -⟩ |
    ⟨-, failure, copy, hclosed⟩
  · rcases @swapOpened_cases R w calls fuel denominations
      ⟨some (calls.opened item), calls.opened item, none⟩ with
      ⟨chosen, change, prepared, hchosen, hchange, hprepared⟩ | ⟨-, hselect⟩
    · exact absurd h (ends_of_prepares
        ⟨denominations, chosen, change, hopens, hchosen, hchange, hprepared⟩)
    · rw [run_of_opens hopens] at h
      obtain ⟨chosen, hchosen, hchange⟩ := hselect h
      exact ⟨denominations, chosen, hopens, hchosen, hchange⟩
  · have hrun : run w calls fuel item = (.err (.failed failure), ⟨item, copy, none⟩) :=
      Proc.bind_of_err (congrArg (fun x => (x.1.mapErr Error.failed, x.2)) hclosed)
    rw [hrun] at h
    cases h

theorem selectChange_ends {chosen : Chosen} {denominations : List Amount}
    (hpos : 0 < chosen.changeAmount → (0 : Amount) ∉ denominations)
    (hfuel : chosen.changeAmount < fuel) :
    selectChange fuel chosen denominations ≠ .err .outOfFuel := by
  rw [selectChange]
  split
  next hchange => exact selectDenominations_ends (hpos hchange) hfuel
  next => nofun

/-- A safe run ends. -/
theorem ends_of_safe (h : Safe w calls item) :
    ∃ fuel, (run w calls fuel item).1 ≠ .err .outOfFuel := by
  cases hchosen : chooseInputs w calls (calls.opened item) with
  | ok chosen =>
      refine ⟨chosen.changeAmount + 1, fun hout => ?_⟩
      obtain ⟨denominations, chosen', hopens, hchosen', hselect⟩ := outOfFuel_cases hout
      cases hchosen.symm.trans hchosen'
      exact selectChange_ends (h.positive denominations chosen hopens hchosen) (Nat.lt_succ_self _)
        hselect
  | err e =>
      refine ⟨0, fun hout => ?_⟩
      obtain ⟨-, chosen, -, hchosen', -⟩ := outOfFuel_cases hout
      cases hchosen.symm.trans hchosen'
  | panic =>
      refine ⟨0, fun hout => ?_⟩
      obtain ⟨-, chosen, -, hchosen', -⟩ := outOfFuel_cases hout
      cases hchosen.symm.trans hchosen'

/-- A run that is to make change of zeros does not end. -/
theorem run_outOfFuel {denominations : List Amount} {chosen : Chosen}
    (hopens : calls.Opens denominations)
    (hchosen : chooseInputs w calls (calls.opened item) = .ok chosen)
    (hpos : 0 < chosen.changeAmount) (hzero : (0 : Amount) ∈ denominations) :
    (run w calls fuel item).1 = .err .outOfFuel := by
  have hselect : selectChange fuel chosen denominations = .err .outOfFuel := by
    rw [selectChange, if_pos hpos]
    exact selectDenominations_zero hzero
  have hcopy : chooseInputs w calls
      (⟨some (calls.opened item), calls.opened item, none⟩ : Page R).copy = .ok chosen := hchosen
  rw [run_of_opens hopens, swapOpened_of_chosen hcopy, hselect]
  rfl

/-- A default state is not chosen from. -/
theorem not_chosen_default {chosen : Chosen} :
    chooseInputs w calls (default : WalletState R) ≠ .ok chosen := by
  intro hchosen
  have hfrom := chosenFrom_of_ok hchosen
  obtain ⟨info, hinfo⟩ := List.exists_mem_of_ne_nil _ hfrom.nonempty
  cases (hfrom.unspent info hinfo).1

/-- An item that is not read is overwritten. -/
theorem loads_of_accounted {denominations : List Amount} (hopens : calls.Opens denominations)
    (h : KeepsValue w calls item) : calls.loads = true ∨
      ∀ info ∈ (item.getD default).proofs, info.state ≠ .unspent := by
  obtain ⟨⟨fuel, hend⟩, haccounted⟩ := h
  cases hloads : calls.loads with
  | true => exact .inl rfl
  | false =>
      refine .inr fun info hinfo hunspent => ?_
      have hdefault : calls.opened item = default := by rw [Calls.opened, hloads]; rfl
      rcases @swapOpened_cases R w calls fuel denominations
        ⟨some (calls.opened item), calls.opened item, none⟩ with
        ⟨chosen, -, -, hchosen, -⟩ | ⟨hsame, -⟩
      · rw [hdefault] at hchosen
        exact not_chosen_default hchosen
      · rw [← run_of_opens hopens] at hsame
        rcases (haccounted fuel hend).kept info hinfo hunspent with hstored |
          ⟨prepared, signatures, hposted, -⟩
        · obtain ⟨state, hstate, stored, hmem, -⟩ := hstored
          rw [hsame, hdefault] at hstate
          cases hstate
          cases hmem
        · rw [hsame] at hposted
          cases hposted

/-- Inputs that are deleted are lost unless every later call succeeds. -/
theorem finishes_of_accounted
    (hfresh : ∀ n, ∀ info ∈ (item.getD default).proofs, info.proof.secret ≠ (calls.generate n).1)
    (hprepares : Prepares w calls fuel item prepared) (hpending : calls.savesPending = true)
    (hanswer : calls.postSwap prepared.request = some signatures)
    (hdeleted : calls.savesDeleted = true) (h : Accounted w item (run w calls fuel item)) :
    Finishes w calls prepared signatures := by
  have hfrom := preparedFrom_of_prepares hprepares
  have hrun : run w calls fuel item = Proc.mapErr .failed (finishSwap w calls prepared signatures)
      ⟨some (prepared.deleted (calls.opened item)), prepared.deleted (calls.opened item),
        some (prepared, some signatures)⟩ := by
    rw [run_of_prepares hprepares, Proc.mapErr, swapPrepared_deleted hpending hanswer hdeleted]
    rfl
  obtain ⟨info, hinput⟩ := List.exists_mem_of_ne_nil _ hfrom.nonempty
  obtain ⟨hinfo, hunspent⟩ := hfrom.unspent info hinput
  have hy : info.y ∈ prepared.inputYs := List.mem_map_of_mem hinput
  rcases h.kept info (mem_of_opened hinfo) hunspent with hstored | ⟨_, _, hposted, -, hheld⟩
  · obtain ⟨state, hstate, stored, hmem, hsame, -⟩ := hstored
    obtain ⟨-, state', infos, hstate', happend, hinfos⟩ :=
      @finishSwap_addsChange R w calls ⟨some (prepared.deleted (calls.opened item)),
        prepared.deleted (calls.opened item), some (prepared, some signatures)⟩ prepared
        signatures rfl
    rw [hrun] at hstate
    cases hstate'.symm.trans hstate
    rw [happend] at hmem
    rcases List.mem_append.mp hmem with hmem | hmem
    · have hyStored : stored.y ∈ prepared.inputYs := by
        rw [← hsame] at hy
        exact hy
      exact absurd hmem (not_mem_deleted hyStored)
    · obtain ⟨preMint, hpreMint, hsecret⟩ := hinfos stored hmem
      obtain ⟨n, hn⟩ := hfrom.change preMint hpreMint
      have hproof : info.proof = stored.proof := by rw [← hsame]; rfl
      exact absurd (hproof ▸ hsecret.trans hn) (hfresh n info (mem_of_opened hinfo))
  · rw [posted_of_prepares hpending hprepares, hanswer] at hposted
    cases hposted
    obtain ⟨-, -, returned, -, hreturned, -⟩ := hheld
    rw [hrun] at hreturned
    exact finishes_of_ok (Outcome.mapErr_eq_ok.mp hreturned)

/-- A run ends, posts a balanced request and accounts for every unspent proof exactly if an item
that is not read has none, zero is not among the denominations of the change, the sum of the inputs
does not wrap, and after the inputs of an accepted swap are deleted every call succeeds. -/
theorem keepsValue_iff
    (hfresh : ∀ n, ∀ info ∈ (item.getD default).proofs,
      info.proof.secret ≠ (calls.generate n).1) :
    KeepsValue w calls item ↔ Safe w calls item := by
  constructor
  · intro h
    refine ⟨fun _ hopens => loads_of_accounted hopens h, ?_, ?_, ?_⟩
    · intro denominations chosen hopens hchosen hpos hzero
      obtain ⟨fuel, hend⟩ := h.1
      exact hend (run_outOfFuel hopens hchosen hpos hzero)
    · intro fuel prepared hprepares hpending
      have hend := ends_of_prepares hprepares
      have hposted := posted_of_prepares hpending hprepares
      have hbalanced := (h.2 fuel hend).balanced (prepared, calls.postSwap prepared.request)
        (Option.mem_def.mpr hposted)
      dsimp only at hbalanced
      exact (balanced_iff hprepares).mp hbalanced
    · intro fuel prepared signatures hprepares hpending hanswer hdeleted
      have hend := ends_of_prepares hprepares
      exact finishes_of_accounted hfresh hprepares hpending hanswer hdeleted (h.2 fuel hend)
  · intro h
    exact ⟨ends_of_safe h, fun fuel _ => accounted_of_safe h fuel⟩

end Main

/-! ## A swap without change -/

/-- A wallet that draws a secret for conditions. -/
def sampleWallet : Wallet :=
  { Wallet.sampleWallet 0 Wallet.noFee_lt with draw := fun _ _ => some ("p2pk", 1) }

/-- The calls of a run, where the mint answers with these keys. -/
def sampleCalls (getMintKeys : Option (List (Id × (Amount → Option PublicKey)))) : Calls where
  denominations := some [1]
  parsesMintUrl := true
  parsesSeed := true
  loads := true
  savesOpened := true
  alicePubkey := some ⟨false, 1⟩
  bobPubkey := some ⟨false, 2⟩
  useSigAll := false
  getMintKeysets := some [⟨.v1 1, .sat, true, 0, none⟩]
  generate _ := ("change", 1)
  savesPending := true
  postSwap request := some (request.outputs.map fun message =>
    ⟨message.amount, message.keysetId, message.blindedSecret⟩)
  savesDeleted := true
  getMintKeys := getMintKeys
  savesChange _ := true
  returnsProofs := true

def sampleInfo (amount : Amount) (secret : String) (x : BitVec 256) : ProofInfo :=
  ⟨⟨Wallet.inputProof amount secret, none⟩, ⟨false, x⟩, "https://mint.example", .unspent, none,
    .sat⟩

/-- A proof of one and a proof of two. -/
def sampleItem : Option (WalletState Unit) :=
  some ⟨[sampleInfo 1 "a" 1, sampleInfo 2 "b" 2], fun _ => 0, ()⟩

def samplePrepared : Prepared where
  inputs := [sampleInfo 1 "a" 1, sampleInfo 2 "b" 2]
  keysetId := .v1 1
  preMints := [⟨⟨1, .v1 1, ⟨false, 1⟩⟩, "p2pk", 1, 1⟩, ⟨⟨2, .v1 1, ⟨false, 1⟩⟩, "p2pk", 1, 2⟩]

section Sample

variable {getMintKeys : Option (List (Id × (Amount → Option PublicKey)))} {fuel : Nat}
  {prepared : Prepared}

theorem chooseInputs_sample :
    chooseInputs sampleWallet (sampleCalls getMintKeys)
        ((sampleCalls getMintKeys).opened sampleItem) =
      .ok ⟨samplePrepared.inputs, 3, .v1 1, samplePrepared.preMints⟩ := rfl

theorem prepares_sample :
    Prepares sampleWallet (sampleCalls getMintKeys) fuel sampleItem samplePrepared :=
  ⟨[1], _, [], ⟨rfl, rfl, rfl, rfl⟩, chooseInputs_sample, rfl, rfl⟩

theorem eq_samplePrepared
    (h : Prepares sampleWallet (sampleCalls getMintKeys) fuel sampleItem prepared) :
    prepared = samplePrepared := by
  obtain ⟨denominations, chosen, change, -, hchosen, hchange, hprepared⟩ := h
  cases chooseInputs_sample.symm.trans hchosen
  have hnone : change = [] := (Outcome.ok.inj hchange).symm
  rw [hnone] at hprepared
  exact (Outcome.ok.inj hprepared).symm

theorem fresh_sample (n : Nat) : ∀ info ∈ (sampleItem.getD default).proofs,
    info.proof.secret ≠ ((sampleCalls getMintKeys).generate n).1 := by
  show ∀ info ∈ [sampleInfo 1 "a" 1, sampleInfo 2 "b" 2], info.proof.secret ≠ "change"
  decide

theorem keepsValue_iff_sample :
    KeepsValue sampleWallet (sampleCalls (some [(.v1 1, fun _ => some ⟨false, 1⟩)]))
      sampleItem := by
  refine (keepsValue_iff fresh_sample).mpr ⟨fun _ _ => .inl rfl, ?_, ?_, ?_⟩
  · intro denominations chosen _ hchosen hpos
    cases chooseInputs_sample.symm.trans hchosen
    exact absurd hpos (by decide)
  · intro fuel prepared hprepares _
    rw [eq_samplePrepared hprepares]
    decide
  · intro fuel prepared signatures hprepares _ hanswer _
    obtain rfl := eq_samplePrepared hprepares
    cases hanswer
    exact ⟨⟨_, _, _, rfl, rfl, rfl, fun _ h => (nomatch h), fun _ h => (nomatch h)⟩, rfl⟩

/-- The keys of the mint cannot be fetched after the swap: the inputs are deleted and the outputs
are lost. -/
theorem not_keepsValue : ¬ ∀ (w : Wallet) (calls : Calls) (item : Option (WalletState Unit)),
    (∀ n, ∀ info ∈ (item.getD default).proofs, info.proof.secret ≠ (calls.generate n).1) →
      KeepsValue w calls item := by
  intro h
  have hkeeps := h sampleWallet (sampleCalls none) sampleItem fresh_sample
  have hprepares := @prepares_sample none 0
  have hend := ends_of_prepares hprepares
  have hfinishes := finishes_of_accounted fresh_sample hprepares rfl rfl rfl (hkeeps.2 0 hend)
  obtain ⟨allKeys, -, -, hkeys, -⟩ := hfinishes.stored
  cases hkeys

end Sample

end Checker

end Cdk
