import Cdk.Lib.Scans
import Cdk.Wallet.MeltAnswers
import Cdk.Wallet.Restore

/-!
# The value of a restore

A restore scans the indices of every keyset in batches, makes proofs of the
signatures that the mint has kept, stores the ones that are not spent, and adds
up what they are worth. Both ends of a batch are included, so the index where
two batches meet is scanned twice. Its proof is stored once, under its point,
and is added twice.
-/

namespace Cdk

open Lib

namespace Wallet

open Selection (worth)

/-- What a restore is told: the keysets and keys that are loaded, the signatures that the mint keeps
for blinded messages, and the states of points. -/
structure RestoreSource where
  keysets : Outcome Error (List (Id × CurrencyUnit))
  keys : Id → Outcome Error (Amount → Option PublicKey)
  signature : PublicKey → Option BlindSignature
  state : PublicKey → State

/-- The outputs that the mint has signed, in order, with their signatures. -/
def RestoreSource.postRestore (source : RestoreSource) (outputs : List BlindedMessage) :
    List (BlindedMessage × BlindSignature) :=
  outputs.filterMap fun output =>
    (source.signature output.blindedSecret).map fun signature => (output, signature)

/-- The variables of the loops of `Wallet::restore`. -/
structure RestoreProgress where
  emptyBatch : Nat
  startCounter : Nat
  restoredValue : Amount
deriving DecidableEq, Repr

section Operations

variable (w : Wallet) (source : RestoreSource)

/-- `PreMintSecrets::restore_batch`: both ends are included. -/
def restoreBatchOf (id : Id) (startCount endCount : Nat) : Outcome Error (List PreMint) :=
  (List.range' startCount (endCount + 1 - startCount)).mapM fun i =>
    w.preMint id .zero (w.seedSecret id i)

/-- `Wallet::check_proofs_spent`, which drops spent proofs from the store. -/
def checkProofsSpent (proofs : List Proof) : Proc Store Error (List State) := do
  let ys ← .lift (w.ys proofs)
  Proc.write (Store.updateProofs [] (ys.filter fun y => source.state y = .spent))
  pure (ys.map source.state)

/-- The proofs that are not spent. -/
def unspentProofs (proofs : List Proof) (states : List State) : List Proof :=
  ((proofs.zip states).filter fun entry => entry.2 ≠ .spent).map Prod.fst

/-- What a round does with the signatures it gets: the proofs are counted, the ones that are not
spent are added up and stored. -/
def storeRestored (keyset : Id × CurrencyUnit) (keys : Amount → Option PublicKey)
    (signatures : List BlindSignature) (premintSecrets : List PreMint) (restoredValue : Amount) :
    Proc Store Error Amount := do
  let proofs ← .lift (w.constructProofs signatures (premintSecrets.map PreMint.r)
    (premintSecrets.map PreMint.secret) keys)
  let _ ← Proc.transact (Store.incrementKeysetCounter keyset.1 (Counters.asU32 proofs.length))
  let states ← w.checkProofsSpent source proofs
  let unspent := unspentProofs proofs states
  let amount ← .lift (total unspent)
  let restoredValue ← .lift (restoredValue.add amount)
  let infos ← .lift (unspent.mapM ({ w with unit := keyset.2 }.proofInfo .unspent))
  Proc.write (Store.updateProofs infos [])
  pure restoredValue

/-- A round of the inner loop of `Wallet::restore`. -/
def restoreRound (keyset : Id × CurrencyUnit) (keys : Amount → Option PublicKey)
    (progress : RestoreProgress) : Proc Store Error RestoreProgress := do
  let next ← .lift ((Counters.addCounter progress.startCounter 100).mapErr .amounts)
  let premintSecrets ← .lift (w.restoreBatchOf keyset.1 progress.startCounter next)
  let response := source.postRestore (premintSecrets.map PreMint.blindedMessage)
  if response = [] then
    pure ⟨progress.emptyBatch + 1, next, progress.restoredValue⟩
  else do
    let premintSecrets := premintSecrets.filter fun p => p.blindedMessage ∈ response.map Prod.fst
    if response.length = premintSecrets.length then do
      let restoredValue ← w.storeRestored source keyset keys (response.map Prod.snd) premintSecrets
        progress.restoredValue
      pure ⟨0, next, restoredValue⟩
    else .lift .panic

variable {w source}

/-- A round moves on by a hundred. -/
theorem startCounter_of_restoreRound {keyset : Id × CurrencyUnit}
    {keys : Amount → Option PublicKey} {progress progress' : RestoreProgress} {s s' : Store}
    (h : w.restoreRound source keyset keys progress s = (.ok progress', s')) :
    progress'.startCounter = progress.startCounter + 100 ∧
      progress.startCounter + 100 < 2 ^ 32 := by
  unfold restoreRound at h
  simp only [Proc.lift_bind_ok, Outcome.mapErr_eq_ok, Counters.addCounter_eq_ok] at h
  obtain ⟨next, ⟨hlt, rfl⟩, premintSecrets, -, h⟩ := h
  refine ⟨?_, hlt⟩
  split at h
  · cases h
    rfl
  · split at h
    · rw [Proc.bind_ok] at h
      obtain ⟨_, _, -, h⟩ := h
      cases h
      rfl
    · cases h

variable (w source)

/-- The inner loop of `Wallet::restore`. -/
def restoreLoop (keyset : Id × CurrencyUnit) (keys : Amount → Option PublicKey)
    (progress : RestoreProgress) : Proc Store Error Amount := fun s =>
  if progress.emptyBatch < 3 then
    match _h : w.restoreRound source keyset keys progress s with
    | (.ok next, s') => restoreLoop keyset keys next s'
    | (.err e, s') => (.err e, s')
    | (.panic, s') => (.panic, s')
  else (.ok progress.restoredValue, s)
termination_by 2 ^ 32 - progress.startCounter
decreasing_by
  obtain ⟨hstart, hlt⟩ := startCounter_of_restoreRound _h
  omega

/-- The outer loop of `Wallet::restore`. -/
def restoreKeysets : List (Id × CurrencyUnit) → Amount → Proc Store Error Amount
  | [], restoredValue => pure restoredValue
  | keyset :: rest, restoredValue => do
      let keys ← .lift (source.keys keyset.1)
      let restoredValue ← w.restoreLoop source keyset keys ⟨0, 0, restoredValue⟩
      restoreKeysets rest restoredValue

/-- `Wallet::restore`. -/
def restore : Proc Store Error Amount := do
  let keysets ← .lift source.keysets
  w.restoreKeysets source keysets .zero

end Operations

/-! ## What is found at an index -/

section Found

variable (w : Wallet) (source : RestoreSource)

/-- The blank output of an index. -/
def premintAt (id : Id) (i : Nat) : Option PreMint := do
  let (secret, r) ← w.seedSecret id i
  let blinded ← w.blind secret r
  some ⟨⟨.zero, id, blinded⟩, secret, r, .zero⟩

/-- A blank output with its signature, if the mint has signed it. -/
def RestoreSource.entryOf (p : PreMint) : Option (BlindSignature × PreMint) :=
  (source.signature p.blindedMessage.blindedSecret).map fun signature => (signature, p)

/-- The mint has signed the blank output of an index. -/
def SignedIndex (id : Id) (i : Nat) : Prop :=
  ((w.premintAt id i).bind source.entryOf).isSome = true

instance (id : Id) : DecidablePred (w.SignedIndex source id) := fun i =>
  inferInstanceAs (Decidable (((w.premintAt id i).bind source.entryOf).isSome = true))

/-- The entry of a signed output, unless its proof is spent. -/
def restoredOf (unit : CurrencyUnit) (keys : Amount → Option PublicKey)
    (entry : BlindSignature × PreMint) : Option ProofInfo :=
  (w.changeInfo unit keys entry).filter fun info => source.state info.y ≠ .spent

/-- The keys of a keyset. -/
def RestoreSource.keysOf (id : Id) (a : Amount) : Option PublicKey :=
  match source.keys id with
  | .ok keys => keys a
  | _ => none

/-- The indices of a batch. -/
def batchAt (keyset : Id × CurrencyUnit) (k : Nat) : List ((Id × CurrencyUnit) × Nat) :=
  (List.range' (100 * k) 101).map fun i => (keyset, i)

/-- What a restore should find at an index of a keyset. -/
def restoredAt (x : (Id × CurrencyUnit) × Nat) : Option ProofInfo :=
  ((w.premintAt x.1.1 x.2).bind source.entryOf).bind
    (w.restoredOf source x.1.2 (source.keysOf x.1.1))

def amountOf (info : ProofInfo) : Nat := info.proof.amount.toNat

end Found

section Batches

variable {w : Wallet} {source : RestoreSource} {id : Id} {unit : CurrencyUnit}
  {keys : Amount → Option PublicKey} {premints : List PreMint}
  {entries : List (BlindSignature × PreMint)} {proofs : List Proof} {ys : List PublicKey}
  {s s' : Store}

theorem preMint_eq_ok {i : Nat} {p : PreMint} :
    w.preMint id .zero (w.seedSecret id i) = .ok p ↔ w.premintAt id i = some p := by
  unfold preMint premintAt
  cases w.seedSecret id i with
  | none => simp [Outcome.ofOption]
  | some drawn => cases hb : w.blind drawn.1 drawn.2 <;> simp [Outcome.ofOption, hb]

theorem filterMap_of_mapM {α β γ ε : Type} {f : α → Outcome ε β} {g : α → Option β}
    (h : ∀ x y, f x = .ok y → g x = some y) (k : β → Option γ) {xs : List α} {ys : List β}
    (hys : xs.mapM f = .ok ys) : ys.filterMap k = xs.filterMap fun x => (g x).bind k := by
  induction xs generalizing ys with
  | nil =>
      cases hys
      rfl
  | cons x rest ih =>
      simp only [List.mapM_cons, Outcome.bind_eq_ok, Outcome.pure_eq, Outcome.ok.injEq] at hys
      obtain ⟨y, hy, ys, hrest, rfl⟩ := hys
      rw [List.filterMap_cons, List.filterMap_cons, h x y hy, Option.bind_some, ih hrest]

/-- The signed outputs of a batch are those of its indices. -/
theorem filterMap_restoreBatchOf {a b : Nat} (h : w.restoreBatchOf id a b = .ok premints) :
    premints.filterMap source.entryOf = (List.range' a (b + 1 - a)).filterMap fun i =>
      (w.premintAt id i).bind source.entryOf :=
  filterMap_of_mapM (fun _ _ => preMint_eq_ok.mp) source.entryOf h

theorem postRestore_eq (premints : List PreMint) :
    source.postRestore (premints.map PreMint.blindedMessage) =
      (premints.filterMap source.entryOf).map fun entry => (entry.2.blindedMessage, entry.1) := by
  unfold RestoreSource.postRestore
  rw [List.filterMap_map, List.map_filterMap]
  apply List.filterMap_congr
  intro p _
  simp only [Function.comp_apply, RestoreSource.entryOf, Option.map_map]
  rfl

/-- The outputs that the wallet keeps are the signed ones. -/
theorem filter_mem_postRestore (premints : List PreMint) :
    (premints.filter fun p => p.blindedMessage ∈
        (source.postRestore (premints.map PreMint.blindedMessage)).map Prod.fst) =
      (premints.filterMap source.entryOf).map Prod.snd := by
  have hsigned : ∀ p ∈ premints, (p.blindedMessage ∈
      (source.postRestore (premints.map PreMint.blindedMessage)).map Prod.fst ↔
        (source.entryOf p).isSome) := by
    intro p hp
    rw [postRestore_eq, List.map_map]
    constructor
    · intro hmem
      obtain ⟨entry, hentry, heq⟩ := List.mem_map.mp hmem
      obtain ⟨p', -, hp'⟩ := List.mem_filterMap.mp hentry
      rw [RestoreSource.entryOf, Option.map_eq_some_iff] at hp'
      obtain ⟨signature, hsignature, rfl⟩ := hp'
      have hsame : p'.blindedMessage = p.blindedMessage := heq
      rw [RestoreSource.entryOf, ← hsame, hsignature]
      rfl
    · intro hsome
      obtain ⟨entry, hentry⟩ := Option.isSome_iff_exists.mp hsome
      refine List.mem_map.mpr ⟨entry, List.mem_filterMap.mpr ⟨p, hp, hentry⟩, ?_⟩
      rw [RestoreSource.entryOf, Option.map_eq_some_iff] at hentry
      obtain ⟨signature, -, rfl⟩ := hentry
      rfl
  have hfilter : (premints.filter fun p => p.blindedMessage ∈
      (source.postRestore (premints.map PreMint.blindedMessage)).map Prod.fst) =
        premints.filter fun p => (source.entryOf p).isSome :=
    List.filter_congr fun p hp => by simp [hsigned p hp]
  rw [hfilter]
  clear hsigned hfilter
  induction premints with
  | nil => rfl
  | cons p rest ih =>
      rw [List.filter_cons, List.filterMap_cons, RestoreSource.entryOf]
      cases source.signature p.blindedMessage.blindedSecret with
      | none => simpa using ih
      | some signature => simpa using ih

theorem constructProofs_entries (entries : List (BlindSignature × PreMint)) :
    w.constructProofs (entries.map Prod.fst) ((entries.map Prod.snd).map PreMint.r)
        ((entries.map Prod.snd).map PreMint.secret) keys =
      entries.mapM fun entry => w.constructProof keys entry.1 entry.2.r entry.2.secret := by
  unfold constructProofs
  rw [if_neg (by simp), List.map_map, List.map_map, List.zip_map', List.zip_map', mapM_map]
  rfl

theorem unspentProofs_cons (proof : Proof) (state : State) (proofs : List Proof)
    (states : List State) :
    unspentProofs (proof :: proofs) (state :: states) =
      if state = .spent then unspentProofs proofs states
      else proof :: unspentProofs proofs states := by
  unfold unspentProofs
  rw [List.zip_cons_cons, List.filter_cons]
  by_cases h : state = .spent <;> simp [h]

/-- What is stored of the proofs is what the signed outputs should make, but for what is spent. -/
theorem unspentProofs_spec (hblank : ∀ entry ∈ entries, w.Blank entry.2)
    (hproofs : entries.mapM (fun entry =>
      w.constructProof keys entry.1 entry.2.r entry.2.secret) = .ok proofs)
    (hys : w.ys proofs = .ok ys) :
    (unspentProofs proofs (ys.map source.state)).mapM
        ({ w with unit := unit }.proofInfo .unspent) =
      .ok (entries.filterMap (w.restoredOf source unit keys)) ∧
    worth (unspentProofs proofs (ys.map source.state)) =
      ((entries.filterMap (w.restoredOf source unit keys)).map amountOf).sum := by
  induction entries generalizing proofs ys with
  | nil =>
      cases hproofs
      cases hys
      exact ⟨rfl, rfl⟩
  | cons entry rest ih =>
      simp only [List.mapM_cons, Outcome.bind_eq_ok, Outcome.pure_eq, Outcome.ok.injEq] at hproofs
      obtain ⟨proof, hproof, proofs, hrest, rfl⟩ := hproofs
      simp only [Wallet.ys, List.mapM_cons, Outcome.bind_eq_ok, Outcome.pure_eq, Outcome.ok.injEq,
        Outcome.ofOption_eq_ok] at hys
      obtain ⟨y, hy, ys, hrestYs, rfl⟩ := hys
      obtain ⟨hfirst, hblank⟩ := List.forall_mem_cons.mp hblank
      obtain ⟨hamount, info, hinfo, hstored⟩ :=
        @proofInfo_of_constructProof w unit keys entry proof hfirst hproof
      obtain ⟨hinfos, hworth⟩ := ih hblank hrest hrestYs
      obtain ⟨hy', hsame, -, -⟩ := proofInfo_eq_ok hstored
      rw [hy, Option.some.injEq] at hy'
      rw [List.map_cons, unspentProofs_cons, List.filterMap_cons]
      by_cases hspent : source.state y = .spent
      · have hnone : w.restoredOf source unit keys entry = none := by
          simp [restoredOf, hinfo, ← hy', hspent]
        rw [if_pos hspent, hnone]
        exact ⟨hinfos, hworth⟩
      · have hsome : w.restoredOf source unit keys entry = some info := by
          simp [restoredOf, hinfo, ← hy', hspent]
        rw [if_neg hspent, hsome, List.mapM_cons, hstored, Outcome.bind_ok, hinfos,
          Outcome.bind_ok, List.map_cons, List.sum_cons, ← hworth, amountOf, hsame]
        exact ⟨rfl, rfl⟩

theorem proofs_drop (ys : List PublicKey) :
    (s.updateProofs [] ys).proofs = s.proofs.removeAll ys := rfl

theorem proofs_add (infos : List ProofInfo) :
    (s.updateProofs infos []).proofs = s.proofs.insertAll infos :=
  Table.delete_eq_self fun _ _ => rfl

/-- What storing restored proofs does to the store. -/
theorem storeRestored_ok {keyset : Id × CurrencyUnit} {restoredValue value : Amount}
    (hblank : ∀ entry ∈ entries, w.Blank entry.2)
    (h : w.storeRestored source keyset keys (entries.map Prod.fst) (entries.map Prod.snd)
      restoredValue s = (.ok value, s')) :
    ∃ spent, (∀ y ∈ spent, source.state y = .spent) ∧
      s'.proofs = (s.proofs.removeAll spent).insertAll
        (entries.filterMap (w.restoredOf source keyset.2 keys)) ∧
      value.toNat = restoredValue.toNat + ((entries.filterMap
        (w.restoredOf source keyset.2 keys)).map amountOf).sum := by
  unfold storeRestored at h
  rw [Proc.lift_bind_ok, constructProofs_entries] at h
  obtain ⟨proofs, hproofs, h⟩ := h
  rw [Proc.bind_ok] at h
  obtain ⟨_, s₁, hcounter, h⟩ := h
  rw [Proc.bind_ok] at h
  obtain ⟨states, s₂, hstates, h⟩ := h
  rw [checkProofsSpent, Proc.lift_bind_ok] at hstates
  obtain ⟨ys, hys, hstates⟩ := hstates
  obtain ⟨hinfos, hworth⟩ := @unspentProofs_spec w source keyset.2 keys entries proofs ys hblank
    hproofs hys
  cases hstates
  simp only [Proc.lift_bind_ok, hinfos, total_eq_ok, hworth] at h
  obtain ⟨amount, hamount, sum, hsum, infos, hok, h⟩ := h
  cases hok
  cases h
  rw [Amount.add, Outcome.expect_eq_ok, Amount.checkedAdd_eq_some, hamount] at hsum
  have hsame : s₁.proofs = s.proofs := by
    have hkeeps := keeps_proofs_increment keyset.1 (Counters.asU32 proofs.length) s
    rwa [hcounter] at hkeeps
  refine ⟨ys.filter fun y => source.state y = .spent, ?_, ?_, hsum⟩
  · intro y hy
    exact of_decide_eq_true (List.mem_filter.mp hy).2
  · rw [proofs_add, proofs_drop, hsame]

theorem blank_of_premintAt (hw : w.SeedRegular) {i : Nat} {p : PreMint}
    (h : w.premintAt id i = some p) : w.Blank p := by
  simp only [premintAt, Option.bind_eq_bind, Option.bind_eq_some_iff, Option.some.injEq] at h
  obtain ⟨⟨secret, r⟩, hdrawn, blinded, hblinded, rfl⟩ := h
  exact ⟨hw.plain id i secret r hdrawn, hw.hashed secret r blinded hblinded⟩

/-- A batch is empty exactly if none of its indices is signed. -/
theorem filterMap_entryOf_eq_nil {k : Nat} :
    ((List.range' (100 * k) 101).filterMap fun i => (w.premintAt id i).bind source.entryOf) = [] ↔
      windowCount (w.SignedIndex source id) 100 k = 0 := by
  rw [List.filterMap_eq_nil_iff, windowCount_eq_zero]
  refine forall_congr' fun i => ?_
  rw [List.mem_range'_1, and_imp]
  refine forall_congr' fun _ => ?_
  rw [SignedIndex, Bool.not_eq_true, Option.isSome_eq_false_iff, Option.isNone_iff_eq_none,
    Nat.lt_succ_iff (n := 100 * k + 100)]

/-- What is found at a batch is what its signed outputs make. -/
theorem filterMap_restoredAt {keyset : Id × CurrencyUnit} (hkeys : source.keys keyset.1 = .ok keys)
    (k : Nat) :
    (batchAt keyset k).filterMap (w.restoredAt source) =
      ((List.range' (100 * k) 101).filterMap fun i =>
        (w.premintAt keyset.1 i).bind source.entryOf).filterMap
          (w.restoredOf source keyset.2 keys) := by
  have hsame : source.keysOf keyset.1 = keys := by
    funext a
    rw [RestoreSource.keysOf, hkeys]
  rw [batchAt, List.filterMap_map, List.filterMap_filterMap, ← hsame]
  rfl

/-- A round looks at the indices of one window. -/
theorem restoreRound_ok (hw : w.SeedRegular) {keyset : Id × CurrencyUnit}
    (hkeys : source.keys keyset.1 = .ok keys) {e k : Nat} {restoredValue : Amount}
    {progress : RestoreProgress}
    (h : w.restoreRound source keyset keys ⟨e, 100 * k, restoredValue⟩ s = (.ok progress, s')) :
    progress.emptyBatch =
        (if windowCount (w.SignedIndex source keyset.1) 100 k = 0 then e + 1 else 0) ∧
      ∃ spent, (∀ y ∈ spent, source.state y = .spent) ∧
        s'.proofs = (s.proofs.removeAll spent).insertAll
          ((batchAt keyset k).filterMap (w.restoredAt source)) ∧
        progress.restoredValue.toNat = restoredValue.toNat +
          (((batchAt keyset k).filterMap (w.restoredAt source)).map amountOf).sum := by
  have hfound := @filterMap_restoredAt w source keys keyset hkeys k
  have hempty := @filterMap_entryOf_eq_nil w source keyset.1 k
  unfold restoreRound at h
  simp only [Proc.lift_bind_ok, Outcome.mapErr_eq_ok, Counters.addCounter_eq_ok] at h
  obtain ⟨_, ⟨-, rfl⟩, premints, hbatch, h⟩ := h
  have hentries := @filterMap_restoreBatchOf w source keyset.1 premints _ _ hbatch
  have hlength : 100 * k + 100 + 1 - 100 * k = 101 := by omega
  rw [hlength] at hentries
  rw [← hentries] at hfound hempty
  rw [filter_mem_postRestore, postRestore_eq] at h
  split at h
  next hnil =>
    rw [List.map_eq_nil_iff] at hnil
    cases h
    rw [hfound, hnil, if_pos (hempty.mp hnil)]
    exact ⟨rfl, [], fun _ h => absurd h List.not_mem_nil, (@proofs_add s []).symm, rfl⟩
  next hsome =>
    rw [List.map_eq_nil_iff] at hsome
    rw [if_pos (by simp), List.map_map] at h
    rw [Proc.bind_ok] at h
    obtain ⟨value, s₁, hstored, h⟩ := h
    cases h
    rw [hfound, if_neg (mt hempty.mpr hsome)]
    refine ⟨rfl, storeRestored_ok ?_ hstored⟩
    intro entry hentry
    rw [hentries] at hentry
    obtain ⟨i, -, hentry⟩ := List.mem_filterMap.mp hentry
    obtain ⟨p, hp, hentry⟩ := Option.bind_eq_some_iff.mp hentry
    rw [RestoreSource.entryOf, Option.map_eq_some_iff] at hentry
    obtain ⟨signature, -, rfl⟩ := hentry
    exact blank_of_premintAt hw hp

end Batches

/-! ## The loops -/

section Loop

variable (w : Wallet) (source : RestoreSource)

/-- A batch is scanned if no three batches in a row before it are empty. -/
def ScannedBatch (id : Id) (k : Nat) : Prop :=
  ∀ m, m + 3 ≤ k → ∃ n, m ≤ n ∧ n < m + 3 ∧ windowCount (w.SignedIndex source id) 100 n ≠ 0

/-- An index is scanned with a batch, of which both ends are part. -/
def ScannedIndex (id : Id) (i : Nat) : Prop :=
  ∃ k, w.ScannedBatch source id k ∧ 100 * k ≤ i ∧ i ≤ 100 * k + 100

/-- The indices of keysets. -/
def indicesOf (keysets : List (Id × CurrencyUnit)) : Set ((Id × CurrencyUnit) × Nat) :=
  {x | x.1 ∈ keysets ∧ x.2 < 2 ^ 32}

/-- The indices that the first batches of a keyset cover. -/
def covered (keyset : Id × CurrencyUnit) (k : Nat) : Set ((Id × CurrencyUnit) × Nat) :=
  {x | x.1 = keyset ∧ 0 < k ∧ x.2 ≤ 100 * k}

/-- What is found where the first batches of a keyset meet. -/
def foundTwice (keyset : Id × CurrencyUnit) (k : Nat) : Nat :=
  ∑ j ∈ Finset.Ico 1 k, weightAt amountOf (w.restoredAt source) (keyset, 100 * j)

/-- Where the loop of a keyset stands behind some batches: what they cover is stored, and what is
found where they meet is in the value twice. -/
structure LoopInv (keyset : Id × CurrencyUnit) (before : Set ((Id × CurrencyUnit) × Nat))
    (extra k : Nat) (progress : RestoreProgress) (s : Store) : Prop where
  start : progress.startCounter = 100 * k
  start_lt : progress.startCounter < 2 ^ 32
  le_three : progress.emptyBatch ≤ 3
  trailing : TrailingEmpty (w.SignedIndex source keyset.1) k progress.emptyBatch
  scanned : ∀ j < k, w.ScannedBatch source keyset.1 j
  holds : HoldsAt (w.restoredAt source) (before ∪ covered keyset k) s.proofs
  value : progress.restoredValue.toNat =
    s.proofs.sum amountOf + extra + w.foundTwice source keyset k

variable {w source} {keyset : Id × CurrencyUnit} {keys : Amount → Option PublicKey}
  {keysets : List (Id × CurrencyUnit)} {before : Set ((Id × CurrencyUnit) × Nat)}
  {extra k e : Nat} {progress progress' : RestoreProgress} {t : ProofTable} {s s' : Store}

/-- The next batch is scanned while fewer than three batches in a row are empty. -/
theorem scannedBatch_of_trailing (h : TrailingEmpty (w.SignedIndex source keyset.1) k e)
    (he : e < 3) (hbefore : ∀ j < k, w.ScannedBatch source keyset.1 j) :
    w.ScannedBatch source keyset.1 k := by
  intro m hm
  rcases Nat.lt_or_eq_of_le hm with hlt | rfl
  · obtain ⟨n, hlow, hhigh, hn⟩ := hbefore (m + 3) (by omega) m le_rfl
    exact ⟨n, hlow, hhigh, hn⟩
  · have hle := h.le
    exact ⟨m + 3 - e - 1, by omega, by omega, h.full _ (by omega)⟩

/-- No batch is scanned behind three empty ones. -/
theorem scannedBatch_iff_of_trailing (h : TrailingEmpty (w.SignedIndex source keyset.1) k 3)
    (hbefore : ∀ j < k, w.ScannedBatch source keyset.1 j) (j : Nat) :
    w.ScannedBatch source keyset.1 j ↔ j < k := by
  refine ⟨fun hj => ?_, hbefore j⟩
  by_contra hge
  have hle := h.le
  obtain ⟨n, hlow, hhigh, hn⟩ := hj (k - 3) (by omega)
  exact hn (h.empty n (by omega) (by omega))

theorem mem_batchAt {x : (Id × CurrencyUnit) × Nat} :
    x ∈ batchAt keyset k ↔ x.1 = keyset ∧ 100 * k ≤ x.2 ∧ x.2 ≤ 100 * k + 100 := by
  rw [batchAt, List.mem_map]
  constructor
  · rintro ⟨i, hi, rfl⟩
    rw [List.mem_range'_1] at hi
    exact ⟨rfl, hi.1, Nat.lt_succ_iff.mp hi.2⟩
  · rintro ⟨rfl, hlow, hhigh⟩
    exact ⟨x.2, List.mem_range'_1.mpr ⟨hlow, Nat.lt_succ_iff.mpr hhigh⟩, rfl⟩

theorem nodup_batchAt : (batchAt keyset k).Nodup :=
  List.Nodup.map (fun _ _ h => congrArg Prod.snd h) List.nodup_range'

/-- The first index of a batch belongs to the batch before, and the others are new. -/
theorem covered_succ (x : (Id × CurrencyUnit) × Nat) :
    x ∈ before ∪ covered keyset k ∪ {x | x ∈ batchAt keyset k} ↔
      x ∈ before ∪ covered keyset (k + 1) := by
  simp only [Set.mem_union, Set.mem_ofPred_eq, mem_batchAt, covered, or_assoc]
  refine or_congr_right ?_
  constructor
  · rintro (⟨rfl, -, hle⟩ | ⟨rfl, -, hle⟩)
    · exact ⟨rfl, Nat.succ_pos k, by omega⟩
    · exact ⟨rfl, Nat.succ_pos k, by omega⟩
  · rintro ⟨rfl, -, hle⟩
    rcases Nat.eq_zero_or_pos k with rfl | hpos
    · exact .inr ⟨rfl, by omega, by omega⟩
    · rcases Nat.le_total x.2 (100 * k) with hlow | hhigh
      · exact .inl ⟨rfl, hpos, hlow⟩
      · exact .inr ⟨rfl, hhigh, by omega⟩

/-- A batch stores what is found at its indices, and its first index counts again. -/
theorem holdsAt_batch
    (hsep : SeparateOn ProofInfo.y (w.restoredAt source) (indicesOf keysets))
    (hin : keyset ∈ keysets) (hbefore : before ⊆ {x | x ∈ indicesOf keysets ∧ x.1 ≠ keyset})
    (hlt : 100 * k + 100 < 2 ^ 32)
    (h : HoldsAt (w.restoredAt source) (before ∪ covered keyset k) t) :
    HoldsAt (w.restoredAt source) (before ∪ covered keyset (k + 1))
        (t.insertAll ((batchAt keyset k).filterMap (w.restoredAt source))) ∧
      (t.insertAll ((batchAt keyset k).filterMap (w.restoredAt source))).sum amountOf +
          w.foundTwice source keyset (k + 1) =
        t.sum amountOf + w.foundTwice source keyset k +
          (((batchAt keyset k).filterMap (w.restoredAt source)).map amountOf).sum := by
  have hS : before ∪ covered keyset k ⊆ indicesOf keysets := by
    rintro x (hx | ⟨rfl, -, hle⟩)
    · exact (hbefore hx).1
    · exact ⟨hin, by omega⟩
  have hU : ∀ x ∈ batchAt keyset k, x ∈ indicesOf keysets := by
    intro x hx
    obtain ⟨rfl, -, hle⟩ := mem_batchAt.mp hx
    exact ⟨hin, by omega⟩
  have hnew : ∀ x, x.1 = keyset → (0 < k → 100 * k < x.2) → x ∉ before ∪ covered keyset k := by
    rintro x hkeyset hbehind (hx | ⟨-, hpos, hle⟩)
    · exact (hbefore hx).2 hkeyset
    · exact absurd (hbehind hpos) (Nat.not_lt_of_le hle)
  rw [ProofTable.insertAll, sum_filterMap]
  rcases Nat.eq_zero_or_pos k with rfl | hpos
  · obtain ⟨hholds, hsum⟩ := h.scan amountOf hsep hS hU nodup_batchAt fun x hx =>
      hnew x (mem_batchAt.mp hx).1 fun h => absurd h (lt_irrefl 0)
    refine ⟨hholds.congr covered_succ, ?_⟩
    rw [hsum, foundTwice, foundTwice]
    simp
  · have hsplit : batchAt keyset k =
        (keyset, 100 * k) :: (List.range' (100 * k + 1) 100).map fun i => (keyset, i) := rfl
    have hfirst : (keyset, 100 * k) ∈ before ∪ covered keyset k :=
      .inr ⟨rfl, hpos, Nat.le_refl (100 * k)⟩
    have hnd := @nodup_batchAt keyset k
    have hcovered := @covered_succ keyset before k
    rw [hsplit] at hU hnd hcovered ⊢
    obtain ⟨-, hU⟩ := List.forall_mem_cons.mp hU
    obtain ⟨hholds, hsum⟩ := h.scan_again amountOf hsep hS hfirst hU
      (List.nodup_cons.mp hnd).2 fun x hx => by
        obtain ⟨i, hi, rfl⟩ := List.mem_map.mp hx
        exact hnew _ rfl fun _ => (List.mem_range'_1.mp hi).1
    refine ⟨hholds.congr hcovered, ?_⟩
    rw [foundTwice, Finset.sum_Ico_succ_top hpos, ← foundTwice]
    omega

/-- Nothing that is stored is spent. -/
theorem removeAll_spent {S : Set ((Id × CurrencyUnit) × Nat)} {spent : List PublicKey}
    (h : HoldsAt (w.restoredAt source) S t) (hspent : ∀ y ∈ spent, source.state y = .spent) :
    t.removeAll spent = t := by
  apply Table.delete_eq_self
  intro info hinfo
  obtain ⟨x, -, hx⟩ := (h info).mp hinfo
  obtain ⟨entry, -, hentry⟩ := Option.bind_eq_some_iff.mp hx
  have hlive := (Option.filter_eq_some_iff.mp hentry).2
  rw [List.contains_eq_mem, decide_eq_false_iff_not]
  intro hmem
  exact of_decide_eq_true hlive (hspent info.y hmem)

/-- A round keeps the invariant. -/
theorem loopInv_restoreRound (hw : w.SeedRegular)
    (hsep : SeparateOn ProofInfo.y (w.restoredAt source) (indicesOf keysets))
    (hin : keyset ∈ keysets) (hbefore : before ⊆ {x | x ∈ indicesOf keysets ∧ x.1 ≠ keyset})
    (hkeys : source.keys keyset.1 = .ok keys)
    (hinv : w.LoopInv source keyset before extra k progress s) (hlt : progress.emptyBatch < 3)
    (h : w.restoreRound source keyset keys progress s = (.ok progress', s')) :
    w.LoopInv source keyset before extra (k + 1) progress' s' := by
  obtain ⟨hnext, hroom⟩ := startCounter_of_restoreRound h
  have hstart := hinv.start
  have hk := scannedBatch_of_trailing hinv.trailing hlt hinv.scanned
  obtain ⟨e, startCounter, restoredValue⟩ := progress
  dsimp only at hstart hroom hnext hlt
  subst hstart
  obtain ⟨hempty, spent, hspent, hproofs, hvalue⟩ := restoreRound_ok hw hkeys h
  have hholds := hinv.holds
  rw [removeAll_spent hholds hspent] at hproofs
  obtain ⟨hholds', hsum⟩ := holdsAt_batch hsep hin hbefore hroom hholds
  rw [← hproofs] at hholds' hsum
  have hbase := hinv.value
  exact {
    start := hnext
    start_lt := by omega
    le_three := by
      rw [hempty]
      split <;> omega
    trailing := by
      rw [hempty]
      split
      next hzero => exact hinv.trailing.succ_of_empty hzero
      next hfull => exact TrailingEmpty.succ_of_full hfull
    scanned := fun j hj => by
      rcases Nat.lt_succ_iff_lt_or_eq.mp hj with hlt | rfl
      · exact hinv.scanned j hlt
      · exact hk
    holds := hholds'
    value := by
      dsimp only at hbase
      omega }

theorem restoreLoop_eq (progress : RestoreProgress) (s : Store) :
    w.restoreLoop source keyset keys progress s =
      if progress.emptyBatch < 3 then
        (w.restoreRound source keyset keys progress >>= w.restoreLoop source keyset keys) s
      else (.ok progress.restoredValue, s) := by
  rw [restoreLoop]
  refine if_congr Iff.rfl ?_ rfl
  rcases h : w.restoreRound source keyset keys progress s with ⟨next | e | _, s'⟩
  · rw [Proc.bind_of_ok h]
  · rw [Proc.bind_of_err h]
  · rw [Proc.bind_of_panic h]

/-- When the loop ends, the invariant holds of the batches that are scanned. -/
theorem restoreLoop_ok (hw : w.SeedRegular)
    (hsep : SeparateOn ProofInfo.y (w.restoredAt source) (indicesOf keysets))
    (hin : keyset ∈ keysets) (hbefore : before ⊆ {x | x ∈ indicesOf keysets ∧ x.1 ≠ keyset})
    (hkeys : source.keys keyset.1 = .ok keys) {value : Amount}
    (hinv : w.LoopInv source keyset before extra k progress s)
    (h : w.restoreLoop source keyset keys progress s = (.ok value, s')) :
    ∃ last progress', progress'.emptyBatch = 3 ∧ progress'.restoredValue = value ∧
      w.LoopInv source keyset before extra last progress' s' := by
  -- the counter grows in every round, up to the bound of its type
  obtain ⟨n, hn⟩ : ∃ n, 2 ^ 32 - k = n := ⟨_, rfl⟩
  induction n using Nat.strong_induction_on generalizing k progress s with
  | _ n ih =>
      rw [restoreLoop_eq] at h
      split at h
      next hlt =>
        rw [Proc.bind_ok] at h
        obtain ⟨next, s₁, hround, h⟩ := h
        have hnext := loopInv_restoreRound hw hsep hin hbefore hkeys hinv hlt hround
        have hstart := hnext.start
        have hstart_lt := hnext.start_lt
        exact ih (2 ^ 32 - (k + 1)) (by omega) hnext h rfl
      next hge =>
        cases h
        have hle := hinv.le_three
        exact ⟨k, progress, by omega, rfl, hinv⟩

end Loop

/-! ## All keysets -/

section Keysets

variable (w : Wallet) (source : RestoreSource)

/-- The indices that a restore scans. -/
def scannedOf (keysets : List (Id × CurrencyUnit)) : Set ((Id × CurrencyUnit) × Nat) :=
  {x | x.1 ∈ keysets ∧ w.ScannedIndex source x.1.1 x.2}

/-- Nothing is found where two scanned batches of a keyset meet. -/
def NothingBetween (keyset : Id × CurrencyUnit) : Prop :=
  ∀ k, 0 < k → w.ScannedBatch source keyset.1 k → ∀ info,
    w.restoredAt source (keyset, 100 * k) = some info → info.proof.amount = .zero

/-- A restore of an empty wallet reports the total of what it stores, and what it stores is what is
found at the indices it scans. -/
structure RestoreReports (keysets : List (Id × CurrencyUnit)) (value : Amount) (s : Store) :
    Prop where
  total : value.toNat = s.proofs.sum amountOf
  stored : HoldsAt (w.restoredAt source) (w.scannedOf source keysets) s.proofs

variable {w source} {keyset : Id × CurrencyUnit} {keys : Amount → Option PublicKey}
  {keysets rest : List (Id × CurrencyUnit)} {before : Set ((Id × CurrencyUnit) × Nat)}
  {extra k : Nat} {value restoredValue : Amount} {s s' : Store}

theorem covered_eq_scanned (h : ∀ j, w.ScannedBatch source keyset.1 j ↔ j < k) (i : Nat) :
    w.ScannedIndex source keyset.1 i ↔ 0 < k ∧ i ≤ 100 * k := by
  constructor
  · rintro ⟨j, hj, -, hle⟩
    have hlt := (h j).mp hj
    exact ⟨by omega, by omega⟩
  · rintro ⟨hpos, hle⟩
    by_cases hlast : i = 100 * k
    · exact ⟨k - 1, (h _).mpr (by omega), by omega, by omega⟩
    · exact ⟨i / 100, (h _).mpr (by omega), by omega, by omega⟩

theorem foundTwice_eq_zero (h : ∀ j, w.ScannedBatch source keyset.1 j ↔ j < k) :
    w.foundTwice source keyset k = 0 ↔ w.NothingBetween source keyset := by
  rw [foundTwice, Finset.sum_eq_zero_iff]
  refine forall_congr' fun j => ?_
  rw [Finset.mem_Ico, and_imp, Nat.one_le_iff_ne_zero, ← Nat.pos_iff_ne_zero, h j]
  refine forall₂_congr fun _ _ => ?_
  rw [weightAt]
  cases w.restoredAt source (keyset, 100 * j) with
  | none => simp
  | some info =>
      have hzero : amountOf info = 0 ↔ info.proof.amount = .zero :=
        ⟨fun h => Amount.ext_toNat h, fun h => congrArg Amount.toNat h⟩
      simpa using hzero

theorem loopInv_start (hholds : HoldsAt (w.restoredAt source) before s.proofs)
    (hvalue : restoredValue.toNat = s.proofs.sum amountOf + extra) :
    w.LoopInv source keyset before extra 0 ⟨0, 0, restoredValue⟩ s where
  start := rfl
  start_lt := Nat.two_pow_pos 32
  le_three := Nat.zero_le 3
  trailing := ⟨le_rfl, fun _ _ h => absurd h (Nat.not_lt_zero _), fun j h => by omega⟩
  scanned _ h := absurd h (Nat.not_lt_zero _)
  holds := hholds.congr fun x => by
    rw [Set.mem_union, or_iff_left]
    rintro ⟨-, hpos, -⟩
    exact absurd hpos (lt_irrefl 0)
  value := hvalue

/-- The keysets are scanned one after the other. -/
theorem restoreKeysets_ok (hw : w.SeedRegular)
    (hsep : SeparateOn ProofInfo.y (w.restoredAt source) (indicesOf keysets))
    (hrest : ∀ keyset ∈ rest, keyset ∈ keysets) (hnd : rest.Nodup)
    (hbefore : before ⊆ {x | x ∈ indicesOf keysets ∧ x.1 ∉ rest})
    (hholds : HoldsAt (w.restoredAt source) before s.proofs)
    (hvalue : restoredValue.toNat = s.proofs.sum amountOf + extra)
    (h : w.restoreKeysets source rest restoredValue s = (.ok value, s')) :
    HoldsAt (w.restoredAt source) (before ∪ w.scannedOf source rest) s'.proofs ∧
      ∃ twice, value.toNat = s'.proofs.sum amountOf + extra + twice ∧
        (twice = 0 ↔ ∀ keyset ∈ rest, w.NothingBetween source keyset) := by
  induction rest generalizing before extra restoredValue s with
  | nil =>
      cases h
      refine ⟨hholds.congr fun x => ?_, 0, hvalue, iff_of_true rfl nofun⟩
      rw [Set.mem_union, or_iff_left]
      exact fun hx => absurd hx.1 List.not_mem_nil
  | cons keyset rest ih =>
      obtain ⟨hfirst, hrest⟩ := List.forall_mem_cons.mp hrest
      obtain ⟨hnew, hnd⟩ := List.nodup_cons.mp hnd
      rw [restoreKeysets, Proc.lift_bind_ok] at h
      obtain ⟨keys, hkeys, h⟩ := h
      rw [Proc.bind_ok] at h
      obtain ⟨loopValue, s₁, hloop, h⟩ := h
      have hout : before ⊆ {x | x ∈ indicesOf keysets ∧ x.1 ≠ keyset} := fun x hx =>
        ⟨(hbefore hx).1, fun heq => (hbefore hx).2 (heq ▸ List.mem_cons_self)⟩
      obtain ⟨last, progress, hthree, rfl, hinv⟩ := restoreLoop_ok hw hsep hfirst hout hkeys
        (loopInv_start hholds hvalue) hloop
      have hscanned := scannedBatch_iff_of_trailing (hthree ▸ hinv.trailing) hinv.scanned
      have hcovered := covered_eq_scanned hscanned
      have hstart := hinv.start
      have hstart_lt := hinv.start_lt
      have hbefore' : before ∪ covered keyset last ⊆ {x | x ∈ indicesOf keysets ∧ x.1 ∉ rest} := by
        rintro x (hx | ⟨rfl, -, hle⟩)
        · exact ⟨(hbefore hx).1, fun hmem => (hbefore hx).2 (List.mem_cons_of_mem _ hmem)⟩
        · exact ⟨⟨hfirst, by omega⟩, hnew⟩
      have hvalue' := hinv.value
      rw [Nat.add_assoc] at hvalue'
      obtain ⟨hholds', twice, htwice, hzero⟩ := ih hrest hnd hbefore' hinv.holds hvalue' h
      refine ⟨hholds'.congr fun x => ?_, w.foundTwice source keyset last + twice, by omega, ?_⟩
      · simp only [Set.mem_union, scannedOf, covered, Set.mem_ofPred_eq, List.mem_cons, or_assoc,
          or_and_right]
        refine or_congr_right (or_congr_left (and_congr_right ?_))
        rintro rfl
        exact (hcovered x.2).symm
      · rw [Nat.add_eq_zero_iff, foundTwice_eq_zero hscanned, hzero, List.forall_mem_cons]

end Keysets

/-- For every set of signed indices and all states: when a restore of an empty wallet succeeds, it
reports the total of what it stores, which is what is found at the scanned indices, exactly if
nothing is found where two scanned batches meet. -/
theorem restoreReports_iff (w : Wallet) (source : RestoreSource)
    (keysets : List (Id × CurrencyUnit)) (hw : w.SeedRegular)
    (hkeysets : source.keysets = .ok keysets) (hnd : keysets.Nodup)
    (hsep : SeparateOn ProofInfo.y (w.restoredAt source) (indicesOf keysets)) (s s' : Store)
    (hempty : s.proofs = .empty) (value : Amount) (h : w.restore source s = (.ok value, s')) :
    w.RestoreReports source keysets value s' ↔
      ∀ keyset ∈ keysets, w.NothingBetween source keyset := by
  rw [restore, Proc.lift_bind_ok] at h
  obtain ⟨_, hsame, h⟩ := h
  obtain rfl := Outcome.ok.inj (hkeysets.symm.trans hsame)
  have hholds : HoldsAt (w.restoredAt source) ∅ s.proofs := hempty ▸ HoldsAt.empty
  have hvalue : Amount.zero.toNat = s.proofs.sum amountOf + 0 := by
    rw [hempty]
    rfl
  obtain ⟨hstored, twice, htwice, hzero⟩ := restoreKeysets_ok hw hsep (fun _ hin => hin) hnd
    (Set.empty_subset _) hholds hvalue h
  rw [← hzero]
  constructor
  · intro hreports
    have htotal := hreports.total
    omega
  · intro hnone
    exact ⟨by omega, hstored.congr fun x => by rw [Set.empty_union]⟩

/-! ### A proof where two batches meet -/

/-- A wallet whose blinded messages have their index as the `x` coordinate. -/
def indexWallet : Wallet :=
  { meltWallet with
    fromSeed := fun _ i => some (BitVec.ofNat 256 i, BitVec.ofNat 256 i)
    blind := fun _ r => some ⟨false, r⟩ }

theorem regular_indexWallet : indexWallet.SeedRegular where
  plain := fun _ _ _ _ _ => rfl
  hashed := fun _ _ _ _ => rfl

/-- The mint has signed the index 100, for one sat. -/
def hundredSource : RestoreSource where
  keysets := .ok [(.v1 1, .sat)]
  keys := fun _ => .ok fun _ => some ⟨false, 1⟩
  signature := fun output => if output.x = 100 then some ⟨1, .v1 1, ⟨false, 2⟩⟩ else none
  state := fun _ => .unspent

/-- The keyset is restored in five rounds, of which two find the proof. -/
def hundredProgress : Nat → RestoreProgress
  | 0 => ⟨0, 0, 0⟩
  | 1 => ⟨0, 100, 1⟩
  | n + 2 => ⟨n, 100 * (n + 2), 2⟩

def hundredRound (n : Nat) : Proc Store Error RestoreProgress :=
  indexWallet.restoreRound hundredSource (.v1 1, .sat) (fun _ => some ⟨false, 1⟩)
    (hundredProgress n)

def hundredStore : Nat → Store
  | 0 => emptyStore
  | n + 1 => (hundredRound n (hundredStore n)).2

theorem hundredRound_eq (n : Nat) (hn : n < 5) :
    hundredRound n (hundredStore n) = (.ok (hundredProgress (n + 1)), hundredStore (n + 1)) := by
  have hfirst : ∀ n < 5, (hundredRound n (hundredStore n)).1 = .ok (hundredProgress (n + 1)) := by
    decide +kernel
  exact Prod.ext (hfirst n hn) rfl

theorem restoreLoop_hundred (m n : Nat) (hn : n + m = 5) :
    indexWallet.restoreLoop hundredSource (.v1 1, .sat) (fun _ => some ⟨false, 1⟩)
      (hundredProgress n) (hundredStore n) = (.ok 2, hundredStore 5) := by
  induction m generalizing n with
  | zero =>
      obtain rfl : n = 5 := hn
      rw [restoreLoop_eq, if_neg (by decide)]
      rfl
  | succ m ih =>
      have hgoing : ∀ n < 5, (hundredProgress n).emptyBatch < 3 := by decide
      rw [restoreLoop_eq, if_pos (hgoing n (by omega))]
      exact (Proc.bind_of_ok (hundredRound_eq n (by omega))).trans (ih (n + 1) (by omega))

theorem restore_hundred : indexWallet.restore hundredSource emptyStore =
    (.ok 2, hundredStore 5) :=
  Proc.bind_of_ok (restoreLoop_hundred 5 0 rfl)

theorem separate_hundred : SeparateOn ProofInfo.y (indexWallet.restoredAt hundredSource)
    (indicesOf [(.v1 1, .sat)]) := by
  have hindex : ∀ x ∈ indicesOf [(.v1 1, .sat)], ∀ info,
      indexWallet.restoredAt hundredSource x = some info → x = ((.v1 1, .sat), 100) := by
    rintro ⟨keyset, i⟩ ⟨hin, hlt⟩ info hinfo
    obtain rfl := List.mem_singleton.mp hin
    obtain ⟨entry, hentry, -⟩ := Option.bind_eq_some_iff.mp hinfo
    obtain ⟨p, hp, hentry⟩ := Option.bind_eq_some_iff.mp hentry
    cases hp
    rw [RestoreSource.entryOf, Option.map_eq_some_iff] at hentry
    obtain ⟨signature, hsignature, -⟩ := hentry
    have hx : BitVec.ofNat 256 i = 100 := by
      by_contra hne
      exact nomatch (if_neg hne).symm.trans hsignature
    have hnat := congrArg BitVec.toNat hx
    rw [BitVec.toNat_ofNat, Nat.mod_eq_of_lt (by omega)] at hnat
    rw [hnat]
    rfl
  intro x hx x' hx' r r' hr hr' _
  rw [hindex x hx r hr, hindex x' hx' r' hr']

/-- The proof of one sat is stored once and reported twice. -/
theorem not_restoreReports :
    indexWallet.SeedRegular ∧ hundredSource.keysets = .ok [(.v1 1, .sat)] ∧
      SeparateOn ProofInfo.y (indexWallet.restoredAt hundredSource) (indicesOf [(.v1 1, .sat)]) ∧
      emptyStore.proofs = .empty ∧
      indexWallet.restore hundredSource emptyStore = (.ok 2, hundredStore 5) ∧
      (hundredStore 5).proofs.sum amountOf = 1 ∧
      ¬ indexWallet.RestoreReports hundredSource [(.v1 1, .sat)] 2 (hundredStore 5) := by
  have hsum : (hundredStore 5).proofs.sum amountOf = 1 := by decide +kernel
  refine ⟨regular_indexWallet, rfl, separate_hundred, rfl, restore_hundred, hsum, fun h => ?_⟩
  have htotal := h.total
  rw [hsum] at htotal
  exact absurd htotal (by decide)

theorem restoreReports_iff_hundred :
    indexWallet.RestoreReports hundredSource [(.v1 1, .sat)] 2 (hundredStore 5) ↔
      ∀ keyset ∈ [(Id.v1 1, CurrencyUnit.sat)], indexWallet.NothingBetween hundredSource keyset :=
  restoreReports_iff indexWallet hundredSource [(.v1 1, .sat)] regular_indexWallet rfl
    (List.nodup_singleton _) separate_hundred emptyStore (hundredStore 5) rfl 2 restore_hundred

end Wallet

end Cdk
