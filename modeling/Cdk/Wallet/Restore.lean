import Cdk.Lib.Outcome
import Cdk.Lib.Windows
import Cdk.Nuts.Types

/-!
# Restoring from the seed

A wallet derives the secrets of a keyset from its seed and a counter. To
restore, it derives batches of blinded messages from the first index on, asks
the mint which of them it has signed, and raises the stored counter by the
number of proofs it gets back, until three batches in a row come back empty.

The counter is a position and the proofs are a number. Every index below the
last one that the mint has not signed makes the counter too small, and every
index on the border of two batches is counted twice.
-/

namespace Cdk

open Lib

/-- The blinded message a wallet derives for an index of a keyset, where the derivation works. -/
abbrev Derivation := Nat → Option PublicKey

/-- The error of a derivation. -/
inductive RestoreError where
  | derivation
deriving DecidableEq, Repr

/-- The operator `+` on `u32`, which panics on overflow. -/
def addU32 (a b : Nat) : Outcome RestoreError Nat :=
  if a + b < 2 ^ 32 then .ok (a + b) else .panic

/-- `PreMintSecrets::from_seed` for a number of amounts. -/
def fromSeed (derivation : Derivation) (counter : Nat) : Nat → Outcome RestoreError (List PublicKey)
  | 0 => .ok []
  | count + 1 => do
      let message ← Outcome.ofOption .derivation (derivation counter)
      let next ← addU32 counter 1
      let rest ← fromSeed derivation next count
      .ok (message :: rest)

/-- `PreMintSecrets::restore_batch`: both ends are included. -/
def restoreBatch (derivation : Derivation) (startCount endCount : Nat) :
    Outcome RestoreError (List PublicKey) :=
  (List.range' startCount (endCount + 1 - startCount)).mapM fun i =>
    Outcome.ofOption .derivation (derivation i)

/-- What the mint returns of the outputs of a restore request. -/
def postRestore (signed : PublicKey → Bool) (outputs : List PublicKey) : List PublicKey :=
  outputs.filter signed

/-- The variables of the loop and the stored counter of the keyset. -/
structure RestoreState where
  emptyBatch : Nat
  startCounter : Nat
  counter : Nat
deriving DecidableEq, Repr

/-- One round of the loop of `Wallet::restore`. -/
def restoreRound (derivation : Derivation) (signed : PublicKey → Bool) (s : RestoreState) :
    Outcome RestoreError RestoreState := do
  let next ← addU32 s.startCounter 100
  let premint ← restoreBatch derivation s.startCounter next
  let response := postRestore signed premint
  if response = [] then .ok { s with emptyBatch := s.emptyBatch + 1, startCounter := next }
  else do
    let restored := premint.filter fun message => message ∈ response
    if response.length = restored.length then do
      let counter ← addU32 s.counter restored.length
      .ok ⟨0, next, counter⟩
    else .panic

theorem startCounter_of_restoreRound {derivation : Derivation} {signed : PublicKey → Bool}
    {s s' : RestoreState} (h : restoreRound derivation signed s = .ok s') :
    s'.startCounter = s.startCounter + 100 ∧ s.startCounter + 100 < 2 ^ 32 := by
  simp only [restoreRound, Outcome.bind_eq_ok] at h
  obtain ⟨next, hnext, premint, -, h⟩ := h
  have hstart : next = s.startCounter + 100 ∧ s.startCounter + 100 < 2 ^ 32 := by
    unfold addU32 at hnext
    split at hnext
    next hlt =>
      cases hnext
      exact ⟨rfl, hlt⟩
    next => cases hnext
  split at h
  next =>
    cases h
    exact hstart
  next =>
    split at h
    next =>
      rw [Outcome.bind_eq_ok] at h
      obtain ⟨counter, -, h⟩ := h
      cases h
      exact hstart
    next => cases h

/-- The loop of `Wallet::restore` for one keyset. -/
def restoreLoop (derivation : Derivation) (signed : PublicKey → Bool) (s : RestoreState) :
    Outcome RestoreError RestoreState :=
  if s.emptyBatch < 3 then
    match _h : restoreRound derivation signed s with
    | .ok next => restoreLoop derivation signed next
    | .err e => .err e
    | .panic => .panic
  else .ok s
termination_by 2 ^ 32 - s.startCounter
decreasing_by
  obtain ⟨hstart, hlt⟩ := startCounter_of_restoreRound _h
  omega

/-- The stored counter of one keyset after its part of `Wallet::restore`. -/
def restoreKeyset (derivation : Derivation) (signed : PublicKey → Bool) (counter : Nat) :
    Outcome RestoreError Nat := do
  let s ← restoreLoop derivation signed ⟨0, 0, counter⟩
  .ok s.counter

/-- `Wallet::restore` as far as the stored counters go, for the keysets of the wallet. -/
def restore (derivation : Id → Derivation) (signed : PublicKey → Bool) (keysets : List Id)
    (counters : Id → Nat) : Outcome RestoreError (Id → Nat) :=
  keysets.foldlM (fun counters id => do
    let counter ← restoreKeyset (derivation id) signed (counters id)
    .ok (Function.update counters id counter)) counters

/-! ## One round -/

/-- The mint holds a signature for the message of an index. -/
def SignedAt (derivation : Derivation) (signed : PublicKey → Bool) (i : Nat) : Prop :=
  i < 2 ^ 32 ∧ ∃ message, derivation i = some message ∧ signed message = true

instance (derivation : Derivation) (signed : PublicKey → Bool) :
    DecidablePred (SignedAt derivation signed) := fun i =>
  decidable_of_iff (i < 2 ^ 32 ∧ (derivation i).any signed = true) <| by
    cases h : derivation i <;> simp [SignedAt, h]

/-- The batch with an index can be derived. -/
def Derivable (derivation : Derivation) (k : Nat) : Prop :=
  100 * k + 100 < 2 ^ 32 ∧ ∀ i, 100 * k ≤ i → i ≤ 100 * k + 100 → (derivation i).isSome

section Round

variable {derivation : Derivation} {signed : PublicKey → Bool}

theorem addU32_eq_ok {a b n : Nat} : addU32 a b = .ok n ↔ a + b < 2 ^ 32 ∧ n = a + b := by
  unfold addU32
  split
  next h => rw [Outcome.ok.injEq, and_iff_right h, eq_comm]
  next h =>
    constructor
    · intro hok
      cases hok
    · intro hok
      exact absurd hok.1 h

/-- The restored messages of a batch are as many as the indices that the mint holds. -/
theorem restoreBatch_eq_ok {start count : Nat} {premint : List PublicKey}
    (hlt : start + count ≤ 2 ^ 32)
    (h : (List.range' start count).mapM (fun i => Outcome.ofOption .derivation (derivation i)) =
      (.ok premint : Outcome RestoreError (List PublicKey))) :
    (premint.filter signed).length =
      Nat.count (fun i => SignedAt derivation signed (start + i)) count := by
  induction count generalizing start premint with
  | zero =>
      cases h
      rfl
  | succ count ih =>
      rw [List.range'_succ, List.mapM_cons] at h
      simp only [Outcome.bind_eq_ok, Outcome.ofOption_eq_ok, Outcome.pure_eq, Outcome.ok.injEq] at h
      obtain ⟨message, hmessage, rest, hrest, rfl⟩ := h
      have htail := ih (by omega) hrest
      have hstart : start < 2 ^ 32 := by omega
      have hheld : SignedAt derivation signed (start + 0) ↔ signed message = true := by
        rw [Nat.add_zero, SignedAt, and_iff_right hstart, hmessage]
        simp
      have hshift : ∀ i, start + 1 + i = start + (i + 1) := fun i => by omega
      simp only [hshift] at htail
      rw [Nat.count_succ', List.filter_cons]
      by_cases hsigned : signed message = true
      · rw [if_pos hsigned, if_pos (hheld.mpr hsigned), List.length_cons, htail]
      · rw [if_neg hsigned, if_neg (mt hheld.mp hsigned), htail, Nat.add_zero]

/-- A batch is derived exactly when each of its indices is. -/
theorem exists_restoreBatch {k : Nat} :
    (∃ premint, restoreBatch derivation (100 * k) (100 * k + 100) = .ok premint) ↔
      ∀ i, 100 * k ≤ i → i ≤ 100 * k + 100 → (derivation i).isSome := by
  have hrange : ∀ i, i ∈ List.range' (100 * k) (100 * k + 100 + 1 - 100 * k) ↔
      100 * k ≤ i ∧ i ≤ 100 * k + 100 := by
    intro i
    rw [List.mem_range'_1]
    omega
  unfold restoreBatch
  constructor
  · rintro ⟨premint, h⟩ i hlow hhigh
    obtain ⟨message, -, hmessage⟩ := Outcome.exists_mem_of_mapM h ((hrange i).mpr ⟨hlow, hhigh⟩)
    rw [Outcome.ofOption_eq_ok] at hmessage
    rw [hmessage]
    rfl
  · intro h
    apply Outcome.exists_mapM
    intro i hi
    obtain ⟨message, hmessage⟩ := Option.isSome_iff_exists.mp
      (h i ((hrange i).mp hi).1 ((hrange i).mp hi).2)
    exact ⟨message, Outcome.ofOption_eq_ok.mpr hmessage⟩

/-- A round counts the indices of its batch that the mint holds. -/
theorem restoreRound_eq_ok {k e c : Nat} {s' : RestoreState} :
    restoreRound derivation signed ⟨e, 100 * k, c⟩ = .ok s' ↔
      Derivable derivation k ∧
        if windowCount (SignedAt derivation signed) 100 k = 0 then s' = ⟨e + 1, 100 * (k + 1), c⟩
        else c + windowCount (SignedAt derivation signed) 100 k < 2 ^ 32 ∧
          s' = ⟨0, 100 * (k + 1), c + windowCount (SignedAt derivation signed) 100 k⟩ := by
  have hcount : ∀ premint, 100 * k + 100 < 2 ^ 32 →
      restoreBatch derivation (100 * k) (100 * k + 100) = .ok premint →
        (premint.filter signed).length = windowCount (SignedAt derivation signed) 100 k := by
    intro premint hlt hbatch
    have hlen : 100 * k + 100 + 1 - 100 * k = 101 := by omega
    rw [restoreBatch, hlen] at hbatch
    exact restoreBatch_eq_ok (by omega) hbatch
  have hrestored : ∀ premint : List PublicKey,
      (premint.filter fun message => message ∈ postRestore signed premint) =
        premint.filter signed := by
    intro premint
    apply List.filter_congr
    intro message hmessage
    simp [postRestore, hmessage]
  simp only [restoreRound, Outcome.bind_eq_ok, addU32_eq_ok, hrestored]
  rw [Derivable, ← exists_restoreBatch]
  constructor
  · rintro ⟨_, ⟨hlt, rfl⟩, premint, hbatch, h⟩
    have hlen := hcount premint hlt hbatch
    refine ⟨⟨hlt, premint, hbatch⟩, ?_⟩
    split at h
    next hnil =>
      have hzero : windowCount (SignedAt derivation signed) 100 k = 0 := by
        rw [← hlen, ← postRestore, hnil]
        rfl
      rw [if_pos hzero]
      cases h
      rfl
    next hne =>
      have hpos : windowCount (SignedAt derivation signed) 100 k ≠ 0 := by
        rw [← hlen]
        exact fun hzero => hne (List.eq_nil_of_length_eq_zero hzero)
      rw [if_neg hpos]
      simp only [postRestore, if_true, Outcome.bind_eq_ok, addU32_eq_ok, Outcome.ok.injEq] at h
      obtain ⟨counter, ⟨hlt', rfl⟩, rfl⟩ := h
      rw [hlen] at hlt'
      exact ⟨hlt', by rw [hlen]; rfl⟩
  · rintro ⟨⟨hlt, premint, hbatch⟩, h⟩
    have hlen := hcount premint hlt hbatch
    refine ⟨_, ⟨hlt, rfl⟩, premint, hbatch, ?_⟩
    split at h
    next hzero =>
      have hnil : postRestore signed premint = [] :=
        List.eq_nil_of_length_eq_zero (hlen.trans hzero)
      rw [if_pos hnil, h]
      rfl
    next hpos =>
      have hne : postRestore signed premint ≠ [] := by
        intro hnil
        apply hpos
        rw [← hlen, ← postRestore, hnil]
        rfl
      rw [if_neg hne]
      simp only [postRestore, if_true, Outcome.bind_eq_ok, addU32_eq_ok, hlen]
      exact ⟨_, ⟨h.1, rfl⟩, by rw [h.2]; rfl⟩

end Round

/-! ## The whole loop -/

/-- The last `e` of the first `k` windows are empty, and the one before them is not. -/
structure TrailingEmpty (p : Nat → Prop) [DecidablePred p] (k e : Nat) : Prop where
  le : e ≤ k
  empty : ∀ j, k ≤ j + e → j < k → windowCount p 100 j = 0
  full : ∀ j, j + e + 1 = k → windowCount p 100 j ≠ 0

/-- The loop stops after the first `last` batches: the last three of them are empty, and no three
in a row before. -/
structure StopsAfter (p : Nat → Prop) [DecidablePred p] (last : Nat) : Prop where
  three_le : 3 ≤ last
  empty : ∀ j, last ≤ j + 3 → windowCount p 100 j = 0
  first : ∀ k, (∀ j, k ≤ j → j < k + 3 → windowCount p 100 j = 0) → last ≤ k + 3

section Trailing

variable {p : Nat → Prop} [DecidablePred p] {k e last : Nat}

theorem TrailingEmpty.succ_of_empty (h : TrailingEmpty p k e) (hk : windowCount p 100 k = 0) :
    TrailingEmpty p (k + 1) (e + 1) where
  le := Nat.succ_le_succ h.le
  empty j hlow hhigh := by
    rcases Nat.lt_succ_iff_lt_or_eq.mp hhigh with hlt | rfl
    · exact h.empty j (by omega) hlt
    · exact hk
  full j hj := h.full j (by omega)

theorem TrailingEmpty.succ_of_full (hk : windowCount p 100 k ≠ 0) : TrailingEmpty p (k + 1) 0 where
  le := Nat.zero_le _
  empty j hlow hhigh := by omega
  full j hj := by
    obtain rfl : j = k := by omega
    exact hk

/-- The loop goes on exactly while there are batches to come. -/
theorem TrailingEmpty.lt_three_iff (h : TrailingEmpty p k e) (he : e ≤ 3)
    (stops : StopsAfter p last) (hk : k ≤ last) : e < 3 ↔ k < last := by
  constructor
  · intro hlt
    refine Nat.lt_of_le_of_ne hk ?_
    rintro rfl
    have hthree := stops.three_le
    exact h.full (k - e - 1) (by omega) (stops.empty _ (by omega))
  · intro hlt
    by_contra hge
    obtain rfl : e = 3 := by omega
    have hle := h.le
    have := stops.first (k - 3) fun j hlow hhigh => h.empty j (by omega) (by omega)
    omega

end Trailing

section Loop

variable {derivation : Derivation} {signed : PublicKey → Bool} {last : Nat}

theorem restoreLoop_eq (s : RestoreState) : restoreLoop derivation signed s =
    if s.emptyBatch < 3 then restoreRound derivation signed s >>= restoreLoop derivation signed
    else .ok s := by
  rw [restoreLoop]
  split
  next =>
    split
    next next hnext => rw [hnext, Outcome.bind_ok]
    next e herr => rw [herr, Outcome.bind_err]
    next hpanic => rw [hpanic, Outcome.bind_panic]
  next => rfl

/-- From a batch on the loop adds up what the remaining batches count. -/
theorem restoreLoop_eq_ok (stops : StopsAfter (SignedAt derivation signed) last) {k e c : Nat}
    (hk : k ≤ last) (he : e ≤ 3) (h : TrailingEmpty (SignedAt derivation signed) k e)
    (hc : c < 2 ^ 32) {s' : RestoreState} :
    restoreLoop derivation signed ⟨e, 100 * k, c⟩ = .ok s' ↔
      (∀ j, k ≤ j → j < last → Derivable derivation j) ∧
        c + ∑ j ∈ Finset.Ico k last, windowCount (SignedAt derivation signed) 100 j < 2 ^ 32 ∧
        s' = ⟨3, 100 * last,
          c + ∑ j ∈ Finset.Ico k last, windowCount (SignedAt derivation signed) 100 j⟩ := by
  obtain ⟨n, hn⟩ := Nat.exists_eq_add_of_le hk
  induction n generalizing k e c with
  | zero =>
      have hdone : ¬ e < 3 := by
        rw [h.lt_three_iff he stops hk]
        omega
      obtain rfl : e = 3 := by omega
      obtain rfl : last = k := hn
      rw [restoreLoop_eq, if_neg hdone, Finset.Ico_self, Finset.sum_empty, Nat.add_zero,
        Outcome.ok.injEq, eq_comm, and_iff_right hc]
      refine (and_iff_right ?_).symm
      intro j hlow hhigh
      omega
  | succ n ih =>
      have hlt : k < last := by omega
      have hderivable : (∀ j, k ≤ j → j < last → Derivable derivation j) ↔
          Derivable derivation k ∧ ∀ j, k + 1 ≤ j → j < last → Derivable derivation j := by
        constructor
        · intro hall
          exact ⟨hall k le_rfl hlt, fun j hlow hhigh => hall j (by omega) hhigh⟩
        · rintro ⟨hfirst, hrest⟩ j hlow hhigh
          rcases Nat.eq_or_lt_of_le hlow with rfl | hlow
          · exact hfirst
          · exact hrest j hlow hhigh
      have hmore : e < 3 := (h.lt_three_iff he stops hk).mpr hlt
      rw [restoreLoop_eq, if_pos hmore, Outcome.bind_eq_ok, Finset.sum_eq_sum_Ico_succ_bot hlt,
        hderivable]
      simp only [restoreRound_eq_ok]
      by_cases hzero : windowCount (SignedAt derivation signed) 100 k = 0
      · have hrest := ih (by omega) (by omega) (h.succ_of_empty hzero) hc (by omega)
        simp only [hzero, if_true, Nat.zero_add]
        constructor
        · rintro ⟨_, ⟨hfirst, rfl⟩, hok⟩
          obtain ⟨hall, hsum⟩ := hrest.mp hok
          exact ⟨⟨hfirst, hall⟩, hsum⟩
        · rintro ⟨⟨hfirst, hall⟩, hsum⟩
          exact ⟨_, ⟨hfirst, rfl⟩, hrest.mpr ⟨hall, hsum⟩⟩
      · simp only [if_neg hzero, ← Nat.add_assoc]
        constructor
        · rintro ⟨_, ⟨hfirst, hlt', rfl⟩, hok⟩
          have hrest := ih (by omega) (by omega) (TrailingEmpty.succ_of_full hzero) hlt' (by omega)
          obtain ⟨hall, hsum⟩ := hrest.mp hok
          exact ⟨⟨hfirst, hall⟩, hsum⟩
        · rintro ⟨⟨hfirst, hall⟩, hsum⟩
          have hlt' : c + windowCount (SignedAt derivation signed) 100 k < 2 ^ 32 :=
            (Nat.le_add_right _ _).trans_lt hsum.1
          have hrest := ih (by omega) (by omega) (TrailingEmpty.succ_of_full hzero) hlt' (by omega)
          exact ⟨_, ⟨hfirst, hlt', rfl⟩, hrest.mpr ⟨hall, hsum⟩⟩

end Loop

/-! ## One keyset -/

/-- Below the last index that the mint holds no 300 indices in a row are missing. -/
def NoLongGap (held : Nat → Prop) : Prop :=
  ∀ m, held m → (∀ i, held i → i ≤ m) → ∀ a, a + 300 ≤ m → ∃ i, a ≤ i ∧ i < a + 300 ∧ held i

/-- The counter lies behind every index that the mint holds, and nothing that is derived from it
was signed before. -/
def CounterSafe (derivation : Derivation) (signed : PublicKey → Bool) (counter : Nat) : Prop :=
  (∀ i, SignedAt derivation signed i → i < counter) ∧
    ∀ count messages, fromSeed derivation counter count = .ok messages →
      ∀ message ∈ messages, signed message = false

/-- All indices up to a bound are of their type and can be derived. -/
def DerivableUpTo (derivation : Derivation) (bound : Nat) : Prop :=
  bound < 2 ^ 32 ∧ ∀ i ≤ bound, (derivation i).isSome

/-- The indices below `m` that the mint does not hold. -/
def missingBelow (derivation : Derivation) (signed : PublicKey → Bool) (m : Nat) : Nat :=
  Nat.count (fun i => ¬ SignedAt derivation signed i) m

/-- The positive multiples of 100 up to `m` that the mint holds. -/
def heldTwice (derivation : Derivation) (signed : PublicKey → Bool) (m : Nat) : Nat :=
  Nat.count (fun i => SignedAt derivation signed (100 * (i + 1))) (m / 100)

/-- The condition under which a keyset is restored. -/
def RestoreCovers (derivation : Derivation) (signed : PublicKey → Bool) : Prop :=
  ((∀ i, ¬ SignedAt derivation signed i) ∧ DerivableUpTo derivation 300) ∨
    ∃ m, SignedAt derivation signed m ∧ (∀ i, SignedAt derivation signed i → i ≤ m) ∧
      DerivableUpTo derivation (100 * (m / 100) + 400) ∧
      Nat.count (SignedAt derivation signed) (m + 1) + heldTwice derivation signed m < 2 ^ 32 ∧
      missingBelow derivation signed m ≤ heldTwice derivation signed m

section Keyset

variable {derivation : Derivation} {signed : PublicKey → Bool} {last m : Nat}

/-- What is derived from a counter are the messages of the indices from it on. -/
theorem exists_index_of_fromSeed {counter count : Nat} {messages : List PublicKey}
    {message : PublicKey} (h : fromSeed derivation counter count = .ok messages)
    (hmem : message ∈ messages) :
    ∃ i, counter ≤ i ∧ i < 2 ^ 32 ∧ derivation i = some message := by
  induction count generalizing counter messages with
  | zero =>
      cases h
      cases hmem
  | succ count ih =>
      simp only [fromSeed, Outcome.bind_eq_ok, Outcome.ofOption_eq_ok, addU32_eq_ok,
        Outcome.ok.injEq] at h
      obtain ⟨first, hfirst, next, ⟨hlt, rfl⟩, rest, hrest, rfl⟩ := h
      rcases List.mem_cons.mp hmem with rfl | hmem
      · exact ⟨counter, le_rfl, by omega, hfirst⟩
      · obtain ⟨i, hlow, hi, hmessage⟩ := ih hrest hmem
        exact ⟨i, by omega, hi, hmessage⟩

/-- A counter behind every held index is safe. -/
theorem counterSafe_iff {counter : Nat} :
    CounterSafe derivation signed counter ↔ ∀ i, SignedAt derivation signed i → i < counter := by
  refine ⟨And.left, fun h => ⟨h, ?_⟩⟩
  intro count messages hmessages message hmem
  obtain ⟨i, hlow, hi, hmessage⟩ := exists_index_of_fromSeed hmessages hmem
  by_contra hsigned
  have := h i ⟨hi, message, hmessage, by simpa using hsigned⟩
  omega

theorem derivable_batches_iff (hlast : 0 < last) :
    (∀ j, 0 ≤ j → j < last → Derivable derivation j) ↔ DerivableUpTo derivation (100 * last) := by
  constructor
  · intro h
    refine ⟨?_, ?_⟩
    · have := (h (last - 1) (Nat.zero_le _) (by omega)).1
      omega
    · intro i hi
      rcases Nat.eq_or_lt_of_le hi with rfl | hlt
      · exact (h (last - 1) (Nat.zero_le _) (by omega)).2 _ (by omega) (by omega)
      · exact (h (i / 100) (Nat.zero_le _) (by omega)).2 i (by omega) (by omega)
  · rintro ⟨hlt, h⟩ j - hj
    exact ⟨by omega, fun i _ hi => h i (by omega)⟩

/-- The counter of an empty database after the loop. -/
theorem restoreKeyset_eq_ok (stops : StopsAfter (SignedAt derivation signed) last) {counter : Nat} :
    restoreKeyset derivation signed 0 = .ok counter ↔
      DerivableUpTo derivation (100 * last) ∧ counter < 2 ^ 32 ∧
        counter = ∑ j ∈ Finset.range last, windowCount (SignedAt derivation signed) 100 j := by
  have hstart : TrailingEmpty (SignedAt derivation signed) 0 0 :=
    ⟨le_rfl, fun j _ hj => absurd hj (Nat.not_lt_zero j), fun j hj => by omega⟩
  have hthree := stops.three_le
  have hzero : (0 : Nat) < 2 ^ 32 := by decide
  have hloop : ∀ s, restoreLoop derivation signed ⟨0, 100 * 0, 0⟩ = .ok s ↔ _ := fun s =>
    restoreLoop_eq_ok stops (Nat.zero_le last) (Nat.zero_le 3) hstart hzero
  rw [restoreKeyset, Outcome.bind_eq_ok, ← derivable_batches_iff (by omega),
    Finset.range_eq_Ico]
  constructor
  · rintro ⟨s, hs, hcounter⟩
    obtain ⟨hall, hlt, rfl⟩ := (hloop s).mp hs
    rw [Nat.zero_add] at hlt hcounter
    cases hcounter
    exact ⟨hall, hlt, rfl⟩
  · rintro ⟨hall, hlt, rfl⟩
    refine ⟨_, (hloop _).mpr ⟨hall, by rwa [Nat.zero_add], rfl⟩, ?_⟩
    dsimp only
    rw [Nat.zero_add]

/-- Where the loop stops. -/
theorem stopsAfter_of_last (hm : SignedAt derivation signed m)
    (hlast : ∀ i, SignedAt derivation signed i → i ≤ m)
    (hgap : NoLongGap (SignedAt derivation signed)) :
    StopsAfter (SignedAt derivation signed) (m / 100 + 4) where
  three_le := by omega
  empty j hj := windowCount_behind (by decide) hlast (by omega)
  first k hk := by
    have hgap' : NoGap (SignedAt derivation signed) 100 3 m := hgap m hm hlast
    have hbehind := behind_of_empty (by decide) hm hgap' hk
    omega

theorem stopsAfter_of_none (hnone : ∀ i, ¬ SignedAt derivation signed i) :
    StopsAfter (SignedAt derivation signed) 3 where
  three_le := le_rfl
  empty _ _ := windowCount_eq_zero.mpr fun i _ _ => hnone i
  first k _ := Nat.le_add_left 3 k

/-- The counter is the number of held indices and of those counted twice. -/
theorem sum_windowCount_of_last (hlast : ∀ i, SignedAt derivation signed i → i ≤ m) :
    ∑ j ∈ Finset.range (m / 100 + 4), windowCount (SignedAt derivation signed) 100 j =
      Nat.count (SignedAt derivation signed) (m + 1) + heldTwice derivation signed m := by
  rw [sum_windowCount, heldTwice]
  congr 1
  · apply count_eq_of_le (by omega)
    intro i hi hheld
    have := hlast i hheld
    omega
  · apply count_eq_of_le (by omega)
    intro i hi hheld
    have := hlast _ hheld
    omega

/-- A keyset is restored safely exactly under the condition above. -/
theorem restoreKeyset_counterSafe_iff (hgap : NoLongGap (SignedAt derivation signed)) :
    (∃ counter, restoreKeyset derivation signed 0 = .ok counter ∧
        CounterSafe derivation signed counter) ↔ RestoreCovers derivation signed := by
  simp only [counterSafe_iff]
  by_cases hnone : ∀ i, ¬ SignedAt derivation signed i
  · have stops := stopsAfter_of_none hnone
    constructor
    · rintro ⟨counter, hok, -⟩
      exact .inl ⟨hnone, ((restoreKeyset_eq_ok stops).mp hok).1⟩
    · rintro (⟨-, hderivable⟩ | ⟨m, hm, -⟩)
      · have hsum : ∑ j ∈ Finset.range 3, windowCount (SignedAt derivation signed) 100 j = 0 :=
          Finset.sum_eq_zero fun j _ => stops.empty j (Nat.le_add_left 3 j)
        refine ⟨0, (restoreKeyset_eq_ok stops).mpr ⟨hderivable, by decide, hsum.symm⟩, ?_⟩
        intro i hi
        exact absurd hi (hnone i)
      · exact absurd hm (hnone m)
  · obtain ⟨m, hm, hlast⟩ : ∃ m, SignedAt derivation signed m ∧
        ∀ i, SignedAt derivation signed i → i ≤ m := by
      obtain ⟨i, hi⟩ := not_forall_not.mp hnone
      refine ⟨Nat.findGreatest (SignedAt derivation signed) (2 ^ 32),
        Nat.findGreatest_spec hi.1.le hi, ?_⟩
      intro i hi
      exact Nat.le_findGreatest hi.1.le hi
    have stops := stopsAfter_of_last hm hlast hgap
    have hbound : 100 * (m / 100 + 4) = 100 * (m / 100) + 400 := Nat.mul_add 100 (m / 100) 4
    have hmissing :
        Nat.count (SignedAt derivation signed) m + missingBelow derivation signed m = m :=
      count_add_count_not m
    have hsucc : Nat.count (SignedAt derivation signed) (m + 1) =
        Nat.count (SignedAt derivation signed) m + 1 := by
      rw [Nat.count_succ, if_pos hm]
    have hkeyset : ∀ counter, restoreKeyset derivation signed 0 = .ok counter ↔ _ := fun _ =>
      restoreKeyset_eq_ok stops
    rw [sum_windowCount_of_last hlast, hbound] at hkeyset
    simp only [hkeyset]
    constructor
    · rintro ⟨_, ⟨hderivable, hlt, rfl⟩, hsafe⟩
      refine .inr ⟨m, hm, hlast, hderivable, hlt, ?_⟩
      have := hsafe m hm
      omega
    · rintro (⟨hnone', -⟩ | ⟨m', hm', hlast', hderivable, hlt, hle⟩)
      · exact absurd hnone' hnone
      · obtain rfl : m' = m := Nat.le_antisymm (hlast m' hm') (hlast' m hm)
        refine ⟨_, ⟨hderivable, hlt, rfl⟩, ?_⟩
        intro i hi
        have := hlast i hi
        omega

end Keyset

/-! ## The whole wallet -/

section Wallet

variable {derivation : Id → Derivation} {signed : PublicKey → Bool}

/-- Each keyset gets its own counter. -/
theorem restore_eq_ok {keysets : List Id} (hnd : keysets.Nodup) {counters counters' : Id → Nat} :
    restore derivation signed keysets counters = .ok counters' ↔
      (∀ id ∈ keysets, restoreKeyset (derivation id) signed (counters id) = .ok (counters' id)) ∧
        ∀ id, id ∉ keysets → counters' id = counters id := by
  unfold restore
  induction keysets generalizing counters with
  | nil =>
      rw [List.foldlM_nil, Outcome.pure_eq, Outcome.ok.injEq]
      simp [funext_iff, eq_comm]
  | cons id rest ih =>
      rw [List.nodup_cons] at hnd
      rw [List.foldlM_cons]
      simp only [Outcome.bind_eq_ok, Outcome.ok.injEq, ih hnd.2]
      have hother : ∀ counter, ∀ other ∈ rest,
          Function.update counters id counter other = counters other := by
        intro counter other hmem
        apply Function.update_of_ne
        rintro rfl
        exact hnd.1 hmem
      constructor
      · rintro ⟨_, ⟨counter, hcounter, rfl⟩, hrest, hkeep⟩
        have hid : counters' id = counter := by
          rw [hkeep id hnd.1, Function.update_self]
        refine ⟨?_, ?_⟩
        · rw [List.forall_mem_cons, hid]
          refine ⟨hcounter, ?_⟩
          intro other hmem
          rw [← hrest other hmem, hother counter other hmem]
        · intro other hout
          rw [List.mem_cons, not_or] at hout
          rw [hkeep other hout.2, Function.update_of_ne hout.1]
      · rintro ⟨hall, hkeep⟩
        rw [List.forall_mem_cons] at hall
        refine ⟨_, ⟨counters' id, hall.1, rfl⟩, ?_, ?_⟩
        · intro other hmem
          rw [hother _ other hmem]
          exact hall.2 other hmem
        · intro other hout
          by_cases hid : other = id
          · rw [hid, Function.update_self]
          · rw [Function.update_of_ne hid]
            exact hkeep other (by simp [hid, hout])

end Wallet

/-- For all keysets and all sets of held indices without a long gap: after a restore on an empty
database every counter is safe exactly when every keyset meets the condition above. -/
theorem restore_counterSafe_iff (derivation : Id → Derivation) (signed : PublicKey → Bool)
    (keysets : List Id) (hnd : keysets.Nodup)
    (hgap : ∀ id ∈ keysets, NoLongGap (SignedAt (derivation id) signed)) :
    (∃ counters, restore derivation signed keysets (fun _ => 0) = .ok counters ∧
        ∀ id ∈ keysets, CounterSafe (derivation id) signed (counters id)) ↔
      ∀ id ∈ keysets, RestoreCovers (derivation id) signed := by
  simp only [restore_eq_ok hnd]
  constructor
  · rintro ⟨counters, ⟨hall, -⟩, hsafe⟩ id hid
    exact (restoreKeyset_counterSafe_iff (hgap id hid)).mp ⟨_, hall id hid, hsafe id hid⟩
  · intro hcovers
    have hkeyset : ∀ id ∈ keysets, ∃ counter,
        restoreKeyset (derivation id) signed 0 = .ok counter ∧
          CounterSafe (derivation id) signed counter := fun id hid =>
      (restoreKeyset_counterSafe_iff (hgap id hid)).mpr (hcovers id hid)
    let counters : Id → Nat := fun id =>
      if id ∈ keysets then (restoreKeyset (derivation id) signed 0).getD 0 else 0
    have hcounters : ∀ id ∈ keysets, ∀ counter,
        restoreKeyset (derivation id) signed 0 = .ok counter → counters id = counter := by
      intro id hid counter hcounter
      simp only [counters, if_pos hid, hcounter, Outcome.getD]
    refine ⟨counters, ⟨?_, fun id hout => if_neg hout⟩, ?_⟩
    · intro id hid
      obtain ⟨counter, hcounter, -⟩ := hkeyset id hid
      rw [hcounters id hid counter hcounter]
      exact hcounter
    · intro id hid
      obtain ⟨counter, hcounter, hsafe⟩ := hkeyset id hid
      rw [hcounters id hid counter hcounter]
      exact hsafe

/-! ## A gap of one index -/

/-- The message of an index has the index as its `x` coordinate. -/
def indexDerivation : Derivation := fun i => some ⟨false, BitVec.ofNat 256 i⟩

/-- The request with index 0 failed, and the mint has signed index 1. -/
def signedOne (message : PublicKey) : Bool := message.x = 1

theorem held_one_iff (i : Nat) : SignedAt indexDerivation signedOne i ↔ i = 1 := by
  constructor
  · rintro ⟨hlt, _, ⟨⟩, hsigned⟩
    have hx : BitVec.ofNat 256 i = 1 := of_decide_eq_true hsigned
    have hnat := congrArg BitVec.toNat hx
    rw [BitVec.toNat_ofNat, Nat.mod_eq_of_lt (by omega)] at hnat
    exact hnat
  · rintro rfl
    exact ⟨by decide, _, rfl, rfl⟩

theorem one_noLongGap : NoLongGap (SignedAt indexDerivation signedOne) := by
  intro m hm _ a ha
  rw [held_one_iff] at hm
  omega

theorem restoreKeyset_one : restoreKeyset indexDerivation signedOne 0 = .ok 1 := by
  have hlast : ∀ i, SignedAt indexDerivation signedOne i → i ≤ 1 := fun i hi =>
    ((held_one_iff i).mp hi).le
  have stops := stopsAfter_of_last ((held_one_iff 1).mpr rfl) hlast one_noLongGap
  refine (restoreKeyset_eq_ok stops).mpr ⟨⟨by decide, fun i _ => rfl⟩, by decide, ?_⟩
  rw [sum_windowCount_of_last hlast]
  decide +kernel

/-- The restored counter is the index that the mint has signed, and it is derived again. -/
theorem restore_reuses_index :
    NoLongGap (SignedAt indexDerivation signedOne) ∧
      ∃ counters, restore (fun _ => indexDerivation) signedOne [.v1 0] (fun _ => 0) =
          .ok counters ∧ counters (.v1 0) = 1 ∧ SignedAt indexDerivation signedOne 1 ∧
        fromSeed indexDerivation (counters (.v1 0)) 1 = .ok [⟨false, 1⟩] ∧
        signedOne ⟨false, 1⟩ = true := by
  refine ⟨one_noLongGap, fun id => if id = .v1 0 then 1 else 0, ?_, rfl,
    (held_one_iff 1).mpr rfl, by decide +kernel, rfl⟩
  refine (restore_eq_ok (List.nodup_singleton _)).mpr ⟨?_, ?_⟩
  · intro id hid
    rw [List.mem_singleton.mp hid]
    exact restoreKeyset_one
  · intro id hid
    exact if_neg fun heq => hid (List.mem_singleton.mpr heq)

theorem restore_counterSafe_iff_at_one :
    (∃ counters, restore (fun _ => indexDerivation) signedOne [.v1 0] (fun _ => 0) =
          .ok counters ∧
        ∀ id ∈ [Id.v1 0], CounterSafe indexDerivation signedOne (counters id)) ↔
      ∀ id ∈ [Id.v1 0], RestoreCovers indexDerivation signedOne :=
  restore_counterSafe_iff (fun _ => indexDerivation) signedOne [.v1 0] (List.nodup_singleton _)
    fun _ _ => one_noLongGap

end Cdk
