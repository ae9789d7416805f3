import Cdk.Wallet.Balances

/-!
# Fresh secrets

A wallet derives its secrets from its seed by the indices of a keyset, and takes
the indices from a counter that only grows. While the counters are ahead of
everything that is stored, the points of secrets that are derived anew are
different from each other and from those of the stored proofs.
-/

namespace Cdk

open Lib

namespace Wallet

section Points

variable (w : Wallet) (id : Id)

/-- The secret at an index. -/
def secretAt (counter : Nat) : Option String := (w.seedSecret id counter).map Prod.fst

/-- The point of the secret at an index. -/
def pointAt (counter : Nat) : Option PublicKey :=
  (w.secretAt id counter).bind fun secret => w.env.hashToCurve (utf8 secret)

/-- The secrets at `n` indices in a row. -/
def secretsFrom (start n : Nat) : List String := (List.range' start n).filterMap (w.secretAt id)

end Points

section Growth

variable (w : Wallet)

/-- Different indices have different points. -/
def Injective : Prop :=
  ∀ id c id' c' y, w.pointAt id c = some y → w.pointAt id' c' = some y → id = id' ∧ c = c'

/-- If the point is one of the wallet, its counter has passed the index. -/
def Behind (s : Store) (y : PublicKey) : Prop :=
  ∀ id c, w.pointAt id c = some y → c < s.counters id

/-- Stored proofs are filed under their points, and the counters are ahead of them. -/
structure Ahead (s : Store) : Prop where
  filed : ∀ row ∈ s.proofs.rows, row.proof.toProof.y w.env = some row.y
  behind : ∀ row ∈ s.proofs.rows, w.Behind s row.y

/-- The point was taken while the counters went from one store to the other. -/
def TakenBetween (s s' : Store) (y : PublicKey) : Prop :=
  ∃ id c, w.pointAt id c = some y ∧ s.counters id ≤ c ∧ c < s'.counters id

/-- Counters do not fall, and what is stored was there or has a point that was taken. -/
structure Grows (s s' : Store) : Prop where
  counters : ∀ id, s.counters id ≤ s'.counters id
  rows : ∀ row ∈ s'.proofs.rows,
    (∃ before ∈ s.proofs.rows, before.y = row.y ∧ before.proof = row.proof) ∨
      row.proof.toProof.y w.env = some row.y ∧ w.TakenBetween s s' row.y

variable {w} {s s' s'' : Store} {y y' : PublicKey} {ys : List PublicKey} {infos : List ProofInfo}

theorem Behind.mono (h : w.Behind s y) (hle : ∀ id, s.counters id ≤ s'.counters id) :
    w.Behind s' y := fun id c hy => (h id c hy).trans_le (hle id)

theorem TakenBetween.mono (h : w.TakenBetween s s' y) (hle : ∀ id, s'.counters id ≤ s''.counters id) :
    w.TakenBetween s s'' y := by
  obtain ⟨id, c, hy, hlow, hhigh⟩ := h
  exact ⟨id, c, hy, hlow, hhigh.trans_le (hle id)⟩

theorem TakenBetween.from_before (h : w.TakenBetween s' s'' y)
    (hle : ∀ id, s.counters id ≤ s'.counters id) : w.TakenBetween s s'' y := by
  obtain ⟨id, c, hy, hlow, hhigh⟩ := h
  exact ⟨id, c, hy, (hle id).trans hlow, hhigh⟩

/-- A point that was taken is passed. -/
theorem TakenBetween.behind (h : w.TakenBetween s s' y) (hinj : w.Injective) : w.Behind s' y := by
  obtain ⟨id, c, hy, -, hhigh⟩ := h
  intro id' c' hy'
  obtain ⟨rfl, rfl⟩ := hinj id c id' c' y hy hy'
  exact hhigh

/-- A point that is taken is none that was passed before. -/
theorem TakenBetween.ne (h : w.TakenBetween s s' y) (hbehind : w.Behind s y') : y' ≠ y := by
  rintro rfl
  obtain ⟨id, c, hy, hlow, -⟩ := h
  exact absurd (hbehind id c hy) (Nat.not_lt.mpr hlow)

theorem Grows.refl (s : Store) : w.Grows s s :=
  ⟨fun _ => le_rfl, fun row hrow => .inl ⟨row, hrow, rfl, rfl⟩⟩

theorem Grows.trans (h : w.Grows s s') (h' : w.Grows s' s'') : w.Grows s s'' := by
  refine ⟨fun id => (h.counters id).trans (h'.counters id), fun row hrow => ?_⟩
  rcases h'.rows row hrow with ⟨middle, hmiddle, hy, hproof⟩ | ⟨hfiled, htaken⟩
  · rcases h.rows middle hmiddle with ⟨before, hbefore, hy', hproof'⟩ | ⟨hfiled, htaken⟩
    · exact .inl ⟨before, hbefore, hy'.trans hy, hproof'.trans hproof⟩
    · rw [hy] at htaken
      rw [hy, hproof] at hfiled
      exact .inr ⟨hfiled, htaken.mono h'.counters⟩
  · exact .inr ⟨hfiled, htaken.from_before h.counters⟩

/-- Counters stay ahead of what is stored. -/
theorem Ahead.grows (h : w.Ahead s) (hinj : w.Injective) (hgrows : w.Grows s s') : w.Ahead s' := by
  refine ⟨fun row hrow => ?_, fun row hrow => ?_⟩
  · rcases hgrows.rows row hrow with ⟨before, hbefore, hy, hproof⟩ | ⟨hfiled, -⟩
    · rw [← hy, ← hproof]
      exact h.filed before hbefore
    · exact hfiled
  · rcases hgrows.rows row hrow with ⟨before, hbefore, hy, -⟩ | ⟨-, htaken⟩
    · exact hy ▸ (h.behind before hbefore).mono hgrows.counters
    · exact htaken.behind hinj

theorem Grows.of_proofs (hproofs : s'.proofs = s.proofs)
    (hle : ∀ id, s.counters id ≤ s'.counters id) : w.Grows s s' := by
  refine ⟨hle, fun row hrow => .inl ⟨row, ?_, rfl, rfl⟩⟩
  rwa [← hproofs]

theorem grows_mark (s : Store) (ys : List PublicKey) (state : State) :
    w.Grows s (s.updateProofsState ys state) := by
  refine ⟨fun _ => le_rfl, fun row hrow => ?_⟩
  obtain ⟨before, hbefore, hy, hproof, -⟩ := mem_mark hrow
  exact .inl ⟨before, hbefore, hy, hproof⟩

/-- Storing proofs whose points were taken. -/
theorem Grows.exchange (h : w.Grows s s')
    (hinfos : ∀ info ∈ infos, info.proof.toProof.y w.env = some info.y ∧
      w.TakenBetween s s' info.y) : w.Grows s (s'.updateProofs infos ys) := by
  refine ⟨h.counters, fun row hrow => ?_⟩
  rcases mem_exchange hrow with hnew | ⟨hold, -⟩
  · exact .inr (hinfos row hnew)
  · exact h.rows row hold

end Growth

/-! ## Taking indices -/

section Taking

variable {w : Wallet} {id : Id} {counter start n : Nat} {amounts : List Amount}
  {preMints : List PreMint} {call : SwapCall} {pre : PreSwap} {s s' : Store}

/-- The secrets of a list of pre-mints are those at as many indices in a row, which the counter can
count. -/
theorem secrets_of_deriveAll (h : w.deriveAll id counter amounts = .ok preMints) :
    preMints.map PreMint.secret = w.secretsFrom id counter preMints.length ∧
      (preMints ≠ [] → counter + preMints.length < 2 ^ 32) := by
  induction amounts generalizing counter preMints with
  | nil =>
      cases h
      exact ⟨rfl, fun hne => absurd rfl hne⟩
  | cons amount rest ih =>
      simp only [deriveAll, preMint, Outcome.bind_eq_ok, Outcome.ofOption_eq_ok,
        Outcome.mapErr_eq_ok, Counters.addCounter_eq_ok] at h
      obtain ⟨first, ⟨⟨secret, r⟩, hdrawn, blinded, -, hfirst⟩, next, ⟨hlt, rfl⟩, others, hothers,
        h⟩ := h
      cases hfirst
      cases h
      obtain ⟨hsecrets, hcount⟩ := ih hothers
      have hat : w.secretAt id counter = some secret := congrArg (Option.map Prod.fst) hdrawn
      constructor
      · rw [List.map_cons, hsecrets, secretsFrom, secretsFrom, List.length_cons, List.range'_succ,
          List.filterMap_cons_some hat]
      · intro _
        rw [List.length_cons]
        cases others with
        | nil => exact hlt
        | cons other others =>
            have := hcount (List.cons_ne_nil other others)
            omega

theorem secretsFrom_append (m n : Nat) :
    w.secretsFrom id start m ++ w.secretsFrom id (start + m) n = w.secretsFrom id start (m + n) := by
  rw [secretsFrom, secretsFrom, secretsFrom, ← List.filterMap_append, List.range'_append_1]

/-- What is counted before the split is what the split has. -/
theorem asU32_length (hlt : preMints ≠ [] → counter + preMints.length < 2 ^ 32) :
    Counters.asU32 preMints.length = preMints.length := by
  cases preMints with
  | nil => rfl
  | cons p rest =>
      have := hlt (List.cons_ne_nil p rest)
      exact Counters.asU32_of_lt (by omega)

/-- What an increment of a counter does. -/
structure Incremented (id : Id) (n : Nat) (s s' : Store) : Prop where
  proofs : s'.proofs = s.proofs
  counter : s'.counters id = s.counters id + n
  mono : ∀ id', s.counters id' ≤ s'.counters id'

theorem incremented {newCounter : Nat}
    (h : Proc.transact (Store.incrementKeysetCounter id n) s = (.ok newCounter, s')) :
    newCounter = s.counters id + n ∧ Incremented id n s s' := by
  rw [Proc.transact, Tx.commit_eq_ok] at h
  unfold Store.incrementKeysetCounter at h
  dsimp only at h
  split at h <;> cases h
  refine ⟨rfl, rfl, Function.update_self _ _ _, fun id' => ?_⟩
  dsimp only
  by_cases hid : id' = id
  · rw [hid, Function.update_self]
    exact Nat.le_add_right _ _
  · rw [Function.update_of_ne hid]

theorem reserveCounter_ok (h : reserveCounter id n s = (.ok start, s')) :
    (0 < n → start = s.counters id) ∧ Incremented id n s s' := by
  unfold reserveCounter at h
  split at h
  next =>
    rw [Proc.bind_ok] at h
    obtain ⟨newCounter, s₁, hnew, h⟩ := h
    obtain ⟨rfl, hincremented⟩ := incremented hnew
    cases h
    exact ⟨fun _ => Nat.add_sub_cancel _ _, hincremented⟩
  next hzero =>
    cases h
    obtain rfl := Nat.eq_zero_of_not_pos hzero
    exact ⟨fun h => absurd h (Nat.lt_irrefl 0), rfl, rfl, fun _ => le_rfl⟩

/-- The secrets come from indices that were taken. -/
structure Taken (w : Wallet) (s s' : Store) (id : Id) (secrets : List String) : Prop where
  mono : ∀ id', s.counters id' ≤ s'.counters id'
  indices : ∃ n, s'.counters id = s.counters id + n ∧
    secrets.Perm (w.secretsFrom id (s.counters id) n)

/-- What a swap asks for has secrets from indices that it has taken. -/
theorem taken_createSwap (hconditions : call.conditions = none)
    (h : w.createSwap call s = (.ok pre, s')) :
    w.Taken s s' pre.keysetId (pre.preMints.map PreMint.secret) := by
  obtain ⟨proofsTotal, ys, before, feeAndAmounts, sendAmount, change, target, needed, start, next,
    preMints, changePreMints, -, -, -, -, -, -, hneeded, hstart, hpreMints, hnext,
    hchangePreMints, hsorted, -⟩ := createSwap_eq_ok hconditions h
  have hsendParts := (preMintsFromSeed_spec hpreMints).1
  have hchangeParts := (preMintsFromSeed_spec hchangePreMints).1
  simp only [preMintsFromSeed, Outcome.bind_eq_ok] at hpreMints hchangePreMints
  obtain ⟨_, -, hpreMints⟩ := hpreMints
  obtain ⟨_, -, hchangePreMints⟩ := hchangePreMints
  obtain ⟨hsecrets, hcount⟩ := secrets_of_deriveAll hpreMints
  obtain ⟨hchangeSecrets, hchangeCount⟩ := secrets_of_deriveAll hchangePreMints
  rw [Counters.addCounter_eq_ok, asU32_length hcount] at hnext
  obtain ⟨-, rfl⟩ := hnext
  simp only [totalSecretsNeeded, hsendParts, hchangeParts, Outcome.bind_ok, List.length_map,
    asU32_length hcount, asU32_length hchangeCount, Outcome.mapErr_eq_ok,
    Counters.addCounter_eq_ok] at hneeded
  obtain ⟨-, rfl⟩ := hneeded
  obtain ⟨hfrom, hincremented⟩ := reserveCounter_ok hstart
  refine ⟨hincremented.mono, _, hincremented.counter, ?_⟩
  have hperm : (pre.preMints.map PreMint.secret).Perm
      ((preMints ++ changePreMints).map PreMint.secret) :=
    hsorted ▸ (List.perm_insertionSort _ _).map _
  rw [List.map_append, hsecrets, hchangeSecrets, secretsFrom_append] at hperm
  rcases Nat.eq_zero_or_pos (preMints.length + changePreMints.length) with hzero | hpos
  · rw [hzero] at hperm ⊢
    exact hperm
  · rwa [hfrom hpos] at hperm

end Taking

/-! ## New entries -/

section Entries

variable {w : Wallet} {id : Id} {start n : Nat} {secrets : List String} {proofs : List Proof}
  {infos : List ProofInfo} {state : State} {call : SwapCall} {s s' : Store}

/-- The points of secrets, where they have one. -/
def pointsOf (w : Wallet) (secrets : List String) : List PublicKey :=
  secrets.filterMap fun secret => w.env.hashToCurve (utf8 secret)

/-- New entries are filed under the points of their secrets. -/
theorem ys_of_infos (h : proofs.mapM (w.proofInfo state) = .ok infos) :
    infos.map ProofInfo.y = w.pointsOf (proofs.map Proof.secret) := by
  induction proofs generalizing infos with
  | nil =>
      cases h
      rfl
  | cons p rest ih =>
      simp only [List.mapM_cons, Outcome.bind_eq_ok, Outcome.pure_eq, Outcome.ok.injEq] at h
      obtain ⟨info, hinfo, others, hothers, rfl⟩ := h
      have hy : w.env.hashToCurve (utf8 p.secret) = some info.y := (proofInfo_eq_ok hinfo).1
      rw [List.map_cons, List.map_cons, ih hothers, pointsOf, pointsOf, List.filterMap_cons, hy]

theorem pointsOf_secretsFrom :
    w.pointsOf (w.secretsFrom id start n) = (List.range' start n).filterMap (w.pointAt id) := by
  rw [pointsOf, secretsFrom, List.filterMap_filterMap]
  rfl

/-- Entries for secrets that were taken have different points, which were taken. -/
theorem Taken.entries (htaken : w.Taken s s' id secrets) (hinj : w.Injective)
    (hsub : (proofs.map Proof.secret).Subperm secrets)
    (hys : infos.map ProofInfo.y = w.pointsOf (proofs.map Proof.secret)) :
    (infos.map ProofInfo.y).Nodup ∧ ∀ info ∈ infos, w.TakenBetween s s' info.y := by
  obtain ⟨n, hcounter, hperm⟩ := htaken.indices
  obtain ⟨chosen, hchosen, hsublist⟩ := hsub
  have hperm : (w.pointsOf secrets).Perm ((List.range' (s.counters id) n).filterMap (w.pointAt id)) :=
    pointsOf_secretsFrom ▸ hperm.filterMap _
  have hsublist : (w.pointsOf chosen).Sublist (w.pointsOf secrets) := hsublist.filterMap _
  have hchosen : (infos.map ProofInfo.y).Perm (w.pointsOf chosen) :=
    hys ▸ (hchosen.filterMap _).symm
  have hnodup : ((List.range' (s.counters id) n).filterMap (w.pointAt id)).Nodup :=
    List.Nodup.filterMap (fun c c' y hy hy' => (hinj id c id c' y hy hy').2) List.nodup_range'
  refine ⟨hchosen.nodup_iff.mpr (hsublist.nodup (hperm.nodup_iff.mpr hnodup)), fun info hinfo => ?_⟩
  have hmem := hperm.mem_iff.mp
    (hsublist.subset (hchosen.mem_iff.mp (List.mem_map_of_mem hinfo)))
  obtain ⟨c, hc, hy⟩ := List.mem_filterMap.mp hmem
  obtain ⟨hlow, hhigh⟩ := List.mem_range'_1.mp hc
  exact ⟨id, c, hy, hlow, hcounter ▸ hhigh⟩

theorem grows_createSwap {pre : PreSwap} (hconditions : call.conditions = none)
    (h : w.createSwap call s = (.ok pre, s')) : w.Grows s s' := by
  have hmono := (taken_createSwap hconditions h).mono
  obtain ⟨⟨id, proofsTotal, ys⟩, hbefore, -⟩ := Proc.lift_bind_ok.mp h
  refine (grows_mark s ys .reserved).trans (Grows.of_proofs ?_ hmono)
  have hkeeps := keeps_proofs_behindReserving w call id proofsTotal
    (s.updateProofsState ys .reserved)
  rwa [← createSwap_eq hbefore, h] at hkeeps

/-- A swap stores points that it has taken, and the counters pass those of what it returns. -/
theorem grows_swap (hplain : ∀ n, w.env.parseSecret (hexDigits 64 n) = none) (hinj : w.Injective)
    (hconditions : call.conditions = none) {send : Option (List Proof)}
    (h : w.swap call s = (.ok send, s')) :
    w.Grows s s' ∧ ∀ p ∈ send.getD [], ∀ y, p.y w.env = some y → w.Behind s' y := by
  obtain ⟨swapped, s₁, hswapped, h⟩ := Proc.bind_ok.mp h
  simp only [Proc.lift_bind_ok] at h
  obtain ⟨sendInfos, hsent, keepInfos, hkept, deletedYs, -, h⟩ := h
  rw [Proc.bind_of_ok (Proc.write_run _ _)] at h
  cases h
  obtain ⟨hpre, hsecrets⟩ := secrets_of_swapProofs hplain hconditions hswapped
  have hys : (sendInfos ++ keepInfos).map ProofInfo.y =
      w.pointsOf ((swapped.send.getD [] ++ swapped.keep).map Proof.secret) := by
    rw [List.map_append, List.map_append, ys_of_infos hsent, ys_of_infos hkept, pointsOf, pointsOf,
      pointsOf, List.filterMap_append]
  have htaken := ((taken_createSwap hconditions hpre).entries hinj hsecrets.subperm hys).2
  refine ⟨(grows_createSwap hconditions hpre).exchange fun info hinfo => ⟨?_, htaken info hinfo⟩,
    fun p hp y hy => ?_⟩
  · rcases List.mem_append.mp hinfo with hinfo | hinfo
    · obtain ⟨p, -, hmade⟩ := Outcome.exists_of_mem_mapM hsent hinfo
      exact (proofInfo_eq_ok hmade).2.1 ▸ (proofInfo_eq_ok hmade).1
    · obtain ⟨p, -, hmade⟩ := Outcome.exists_of_mem_mapM hkept hinfo
      exact (proofInfo_eq_ok hmade).2.1 ▸ (proofInfo_eq_ok hmade).1
  · have hmem : y ∈ (sendInfos ++ keepInfos).map ProofInfo.y := by
      rw [hys, pointsOf, List.mem_filterMap]
      exact ⟨p.secret, List.mem_map_of_mem (List.mem_append_left _ hp), hy⟩
    obtain ⟨info, hinfo, rfl⟩ := List.mem_map.mp hmem
    exact (htaken info hinfo).behind hinj

end Entries

end Wallet

end Cdk
