import Cdk.Wallet.GreedySelection

/-!
# Selections for several keysets

The parts of an amount are selected once for every keyset of the fee map, also
for those without proofs. If there are enough proofs for all of them, the
selection is worth the amount as often as there are keysets, and nothing is
dropped from it. Otherwise it is cut down to proofs that follow one another.
-/

namespace Cdk

open Lib

namespace Selection

/-! ## Dropping down to the amount -/

/-- Proofs that can be cut down to the amount: one of them is worth it, or some that follow one
another are, and without the first of these what is left from there on is worth less. -/
def ExactRun (amount : Amount) (proofs : List Proof) : Prop :=
  (∃ p ∈ proofs, p.amount = amount) ∨
    ∃ before run after, proofs = before ++ run ++ after ∧ worth run = amount.toNat ∧
      worth (run.tail ++ after) < amount.toNat

section Least

variable {amount : Amount} {proofs rest least : List Proof} {p : Proof}

theorem le_worth_of_mem (h : p ∈ proofs) : p.amount.toNat ≤ worth proofs := by
  have hle := worth_le_of_sublist (List.singleton_sublist.mpr h)
  rwa [worth_cons, worth_nil, Nat.add_zero] at hle

/-- What is worth the amount as a whole is such a run, behind its leading zeros. -/
theorem exactRun_of_worth (hpos : 0 < amount.toNat) (h : worth proofs = amount.toNat) :
    ExactRun amount proofs := by
  induction proofs with
  | nil =>
      rw [worth_nil] at h
      omega
  | cons p rest ih =>
      rw [worth_cons] at h
      by_cases hless : worth rest < amount.toNat
      · refine .inr ⟨[], p :: rest, [], by simp, by rw [worth_cons, h], ?_⟩
        rwa [List.tail_cons, List.append_nil]
      · rcases ih (by omega) with ⟨q, hq, hamount⟩ | ⟨before, run, after, rfl, hrun, htail⟩
        · exact .inl ⟨q, List.mem_cons_of_mem p hq, hamount⟩
        · exact .inr ⟨p :: before, run, after, rfl, hrun, htail⟩

/-- A run that is worth the amount has a first proof. -/
theorem exists_cons_of_worth (hpos : 0 < amount.toNat) {run : List Proof}
    (h : worth run = amount.toNat) : ∃ q tail, run = q :: tail := by
  cases run with
  | nil =>
      rw [worth_nil] at h
      omega
  | cons q tail => exact ⟨q, tail, rfl⟩

/-- If the others are worth the amount, the run is among them. -/
theorem exactRun_cons_of_le (hpos : 0 < amount.toNat) (hle : amount.toNat ≤ worth rest) :
    ExactRun amount (p :: rest) ↔ p.amount = amount ∨ ExactRun amount rest := by
  constructor
  · rintro (⟨q, hq, hamount⟩ | ⟨before, run, after, heq, hrun, htail⟩)
    · rcases List.mem_cons.mp hq with rfl | hq
      · exact .inl hamount
      · exact .inr (.inl ⟨q, hq, hamount⟩)
    · cases before with
      | nil =>
          obtain ⟨q, tail, rfl⟩ := exists_cons_of_worth hpos hrun
          obtain ⟨rfl, rfl⟩ := List.cons.inj heq
          exact absurd htail (Nat.not_lt_of_le hle)
      | cons q before =>
          obtain ⟨rfl, rfl⟩ := List.cons.inj heq
          exact .inr (.inr ⟨before, run, after, rfl, hrun, htail⟩)
  · rintro (hamount | ⟨q, hq, hamount⟩ | ⟨before, run, after, rfl, hrun, htail⟩)
    · exact .inl ⟨p, List.mem_cons_self, hamount⟩
    · exact .inl ⟨q, List.mem_cons_of_mem p hq, hamount⟩
    · exact .inr ⟨p :: before, run, after, rfl, hrun, htail⟩

/-- If the others are worth less, the run starts with the first proof. -/
theorem exactRun_cons_of_lt (hpos : 0 < amount.toNat) (hlt : worth rest < amount.toNat) :
    ExactRun amount (p :: rest) ↔ ∃ run, run <+: p :: rest ∧ worth run = amount.toNat := by
  constructor
  · rintro (⟨q, hq, hamount⟩ | ⟨before, run, after, heq, hrun, htail⟩)
    · rcases List.mem_cons.mp hq with rfl | hq
      · exact ⟨[q], ⟨rest, rfl⟩, by rw [worth_cons, worth_nil, hamount, Nat.add_zero]⟩
      · have hle := le_worth_of_mem hq
        rw [hamount] at hle
        omega
    · cases before with
      | nil => exact ⟨run, ⟨after, heq.symm⟩, hrun⟩
      | cons q before =>
          have hrest : rest = before ++ run ++ after := (List.cons.inj heq).2
          rw [hrest, worth_append, worth_append] at hlt
          omega
  · rintro ⟨run, ⟨after, heq⟩, hrun⟩
    obtain ⟨q, tail, rfl⟩ := exists_cons_of_worth hpos hrun
    obtain ⟨rfl, rfl⟩ := List.cons.inj heq
    exact .inr ⟨[], q :: tail, after, rfl, hrun, hlt⟩

/-- Nothing is dropped where neither a proper beginning nor the rest is worth the amount. -/
theorem leastFrom_self {i : Nat} (hlt : worth proofs < 2 ^ 64)
    (hbegin : ∀ j < proofs.length, worth (proofs.take j) < amount.toNat)
    (hrest : worth (proofs.drop 1) < amount.toNat) :
    leastFrom proofs amount i = .ok proofs := by
  rw [leastFrom]
  split
  next hi =>
    have hsum : worth (proofs.take (i + 1)) + worth (proofs.drop (i + 1)) = worth proofs := by
      rw [← worth_append, List.take_append_drop]
    have total {part : List Proof} (h : worth part < 2 ^ 64) :
        totalAmount part = .ok ⟨worth part, h⟩ := totalAmount_eq_ok.mpr rfl
    have hleft := hbegin (i + 1) hi
    have hright : worth (proofs.drop (i + 1)) ≤ worth (proofs.drop 1) :=
      worth_le_of_sublist (List.drop_sublist_drop_left proofs (by omega))
    have hleftLt : worth (proofs.take (i + 1)) < 2 ^ 64 := by omega
    have hrightLt : worth (proofs.drop (i + 1)) < 2 ^ 64 := by omega
    dsimp only
    rw [total hleftLt, Outcome.bind_ok, total hrightLt, Outcome.bind_ok]
    simp only [Amount.le_def]
    rw [if_neg (by omega), if_neg (by omega), if_neg (by omega)]
    exact leastFrom_self hlt hbegin hrest
  next => rfl
termination_by proofs.length - i

/-- The loop starts at the first position, also for a single proof. -/
theorem selectLeastAmountOver_eq (hlt : worth proofs < 2 ^ 64) (hle : amount.toNat ≤ worth proofs) :
    selectLeastAmountOver proofs amount = leastFrom proofs amount 0 := by
  have htotal : totalAmount proofs = .ok ⟨worth proofs, hlt⟩ := totalAmount_eq_ok.mpr rfl
  have hnot : ¬ (⟨worth proofs, hlt⟩ : Amount) < amount := Nat.not_lt_of_le hle
  rw [selectLeastAmountOver, htotal, Outcome.bind_ok, if_neg hnot]
  split
  next hone => rw [leastFrom, if_neg (by omega)]
  next => rfl

/-- Where no beginning up to here and not the rest is worth the amount, what is kept is the shortest
beginning that is. -/
theorem leastFrom_begin {i : Nat} (hlt : worth proofs < 2 ^ 64)
    (hle : amount.toNat ≤ worth proofs)
    (hbegin : ∀ j ≤ i, worth (proofs.take j) < amount.toNat)
    (hrest : worth (proofs.drop 1) < amount.toNat) :
    ∃ k ≤ proofs.length, leastFrom proofs amount i = .ok (proofs.take k) ∧
      amount.toNat ≤ worth (proofs.take k) ∧ ∀ j < k, worth (proofs.take j) < amount.toNat := by
  by_cases hi : i + 1 < proofs.length
  · have hsum : worth (proofs.take (i + 1)) + worth (proofs.drop (i + 1)) = worth proofs := by
      rw [← worth_append, List.take_append_drop]
    have total {part : List Proof} (h : worth part < 2 ^ 64) :
        totalAmount part = .ok ⟨worth part, h⟩ := totalAmount_eq_ok.mpr rfl
    have hright : worth (proofs.drop (i + 1)) ≤ worth (proofs.drop 1) :=
      worth_le_of_sublist (List.drop_sublist_drop_left proofs (by omega))
    have hleftLt : worth (proofs.take (i + 1)) < 2 ^ 64 := by omega
    have hrightLt : worth (proofs.drop (i + 1)) < 2 ^ 64 := by omega
    rw [leastFrom, if_pos hi]
    dsimp only
    rw [total hleftLt, Outcome.bind_ok, total hrightLt, Outcome.bind_ok]
    simp only [Amount.le_def]
    by_cases hleft : amount.toNat ≤ worth (proofs.take (i + 1))
    · have hshorter (j : Nat) (hj : j < i + 1) : worth (proofs.take j) < amount.toNat :=
        hbegin j (by omega)
      rw [if_neg (by omega), if_pos hleft]
      refine ⟨i + 1, by omega, ?_, hleft, hshorter⟩
      rw [selectLeastAmountOver_eq hleftLt hleft]
      apply leastFrom_self hleftLt
      · intro j hj
        rw [List.length_take] at hj
        rw [List.take_take, Nat.min_eq_left (by omega)]
        exact hshorter j (by omega)
      · have hsub : ((proofs.take (i + 1)).drop 1).Sublist (proofs.drop 1) :=
          (List.take_sublist _ _).drop 1
        exact (worth_le_of_sublist hsub).trans_lt hrest
    · rw [if_neg (by omega), if_neg hleft, if_neg (by omega)]
      apply leastFrom_begin hlt hle _ hrest
      intro j hj
      rcases Nat.le_succ_iff.mp hj with hj | rfl
      · exact hbegin j hj
      · exact Nat.lt_of_not_le hleft
  · have hall : proofs.take proofs.length = proofs := List.take_length
    rw [leastFrom, if_neg hi]
    refine ⟨proofs.length, Nat.le_refl _, by rw [hall], by rwa [hall], fun j hj => ?_⟩
    exact hbegin j (by omega)
termination_by proofs.length - i

/-- The shortest beginning that is worth the amount is worth exactly the amount if any is. -/
theorem worth_take_eq_iff {k : Nat} (hle : amount.toNat ≤ worth (proofs.take k))
    (hshort : ∀ j < k, worth (proofs.take j) < amount.toNat) :
    worth (proofs.take k) = amount.toNat ↔ ∃ run, run <+: proofs ∧ worth run = amount.toNat := by
  constructor
  · intro h
    exact ⟨proofs.take k, List.take_prefix k proofs, h⟩
  · rintro ⟨run, hrun, hworth⟩
    rw [List.prefix_iff_eq_take.mp hrun] at hworth
    by_cases hlonger : k ≤ run.length
    · have hsub := List.take_sublist_take_left (l := proofs) hlonger
      exact Nat.le_antisymm (hworth ▸ worth_le_of_sublist hsub) hle
    · exact absurd hworth (hshort run.length (by omega)).ne

/-- A single proof is kept. -/
theorem selectLeastAmountOver_singleton (hle : amount.toNat ≤ p.amount.toNat) :
    selectLeastAmountOver [p] amount = .ok [p] := by
  have hworth : worth [p] = p.amount.toNat := by rw [worth_cons, worth_nil, Nat.add_zero]
  rw [selectLeastAmountOver_eq (hworth ▸ p.amount.isLt) (hworth ▸ hle), leastFrom]
  exact if_neg (Nat.lt_irrefl 1)

/-- If all but the first proof are worth the amount, what is kept of them is compared with the first
proof. -/
theorem selectLeastAmountOver_cons (hlt : worth (p :: rest) < 2 ^ 64) (hpos : 0 < amount.toNat)
    (hrest : amount.toNat ≤ worth rest) (hleast : selectLeastAmountOver rest amount = .ok least) :
    selectLeastAmountOver (p :: rest) amount =
      .ok (if amount.toNat ≤ p.amount.toNat ∧ p.amount.toNat < worth least then [p]
        else least) := by
  have hlen : 0 + 1 < (p :: rest).length := by
    cases rest with
    | nil =>
        rw [worth_nil] at hrest
        omega
    | cons q tail => exact Nat.succ_lt_succ (Nat.succ_pos _)
  have hone : worth [p] = p.amount.toNat := by rw [worth_cons, worth_nil, Nat.add_zero]
  have hless := worth_le_of_sublist (selectLeastAmountOver_spec hleast).1
  rw [worth_cons] at hlt
  have hpLt : worth [p] < 2 ^ 64 := by omega
  have hrestLt : worth rest < 2 ^ 64 := by omega
  have hleastLt : worth least < 2 ^ 64 := by omega
  have total {part : List Proof} (h : worth part < 2 ^ 64) :
      totalAmount part = .ok ⟨worth part, h⟩ := totalAmount_eq_ok.mpr rfl
  rw [selectLeastAmountOver_eq (by rwa [worth_cons]) (by rw [worth_cons]; omega), leastFrom,
    if_pos hlen]
  have htake : (p :: rest).take (0 + 1) = [p] := rfl
  have hdrop : (p :: rest).drop (0 + 1) = rest := rfl
  dsimp only
  rw [htake, hdrop, total hpLt, Outcome.bind_ok, total hrestLt, Outcome.bind_ok, hleast]
  simp only [Amount.le_def, hone]
  by_cases hp : amount.toNat ≤ p.amount.toNat
  · rw [if_pos ⟨hp, hrest⟩, selectLeastAmountOver_singleton hp]
    dsimp only
    rw [total hpLt, Outcome.bind_ok, total hleastLt, Outcome.bind_ok]
    have hcompare : (⟨worth [p], hpLt⟩ : Amount) < ⟨worth least, hleastLt⟩ ↔
        amount.toNat ≤ p.amount.toNat ∧ p.amount.toNat < worth least := by
      rw [and_iff_right hp, ← hone]
      exact Iff.rfl
    simp only [hcompare]
    split <;> rfl
  · rw [if_neg (fun h => hp h.1), if_neg hp, if_pos hrest, if_neg (fun h => hp h.1)]

/-- What is kept of proofs that are worth the amount is worth exactly the amount if it can be. -/
theorem selectLeastAmountOver_exact_iff (hpos : 0 < amount.toNat)
    (hle : amount.toNat ≤ worth proofs) (hlt : worth proofs < 2 ^ 64)
    (h : selectLeastAmountOver proofs amount = .ok least) :
    worth least = amount.toNat ↔ ExactRun amount proofs := by
  induction proofs generalizing least with
  | nil =>
      rw [worth_nil] at hle
      omega
  | cons p rest ih =>
      have hsum := worth_cons p rest
      by_cases hrest : amount.toNat ≤ worth rest
      · -- the run is among the others, unless the first proof is worth the amount
        obtain ⟨kept, hkept⟩ := exists_selectLeastAmountOver hrest (by omega)
        have hworth := (selectLeastAmountOver_spec hkept).2
        rw [selectLeastAmountOver_cons hlt hpos hrest hkept] at h
        rw [exactRun_cons_of_le hpos hrest, ← ih hrest (by omega) hkept]
        cases h
        have hamount : p.amount = amount ↔ p.amount.toNat = amount.toNat :=
          ⟨congrArg Amount.toNat, Amount.ext_toNat⟩
        rw [hamount]
        split_ifs with hfirst
        · rw [worth_cons, worth_nil]
          omega
        · omega
      · -- a beginning is kept
        have hrest := Nat.lt_of_not_le hrest
        have hbegin : ∀ j ≤ 0, worth ((p :: rest).take j) < amount.toNat := by
          intro j hj
          rw [Nat.le_zero.mp hj]
          exact hpos
        obtain ⟨k, -, hkept, hworth, hshort⟩ := leastFrom_begin hlt hle hbegin hrest
        rw [selectLeastAmountOver_eq hlt hle, hkept] at h
        cases h
        rw [exactRun_cons_of_lt hpos hrest]
        exact worth_take_eq_iff hworth hshort

end Least

/-! ## Counting the parts -/

/-- The number of different proofs of an amount. -/
def available (proofs : List Proof) (amount : Amount) : Nat :=
  (proofs.filter fun p => p.amount = amount).dedup.length

section Counting

variable {proofs selected : List Proof} {amount : Amount}

theorem Picked.filter_amount (h : Picked proofs selected) (amount : Amount) :
    (selected.filter fun p => p.amount = amount).Subperm
      (proofs.filter fun p => p.amount = amount).dedup := by
  apply List.subperm_of_subset (h.nodup.filter _)
  intro p hp
  obtain ⟨hp, hamount⟩ := List.mem_filter.mp hp
  exact List.mem_dedup.mpr (List.mem_filter.mpr ⟨h.mem p hp, hamount⟩)

theorem Picked.count_le (h : Picked proofs selected) (amount : Amount) :
    (selected.filter fun p => p.amount = amount).length ≤ available proofs amount :=
  (h.filter_amount amount).length_le

/-- If all proofs of an amount are selected, it is as many as there are. -/
theorem Picked.count_eq (h : Picked proofs selected)
    (hall : ∀ p ∈ proofs, p.amount = amount → p ∈ selected) :
    (selected.filter fun p => p.amount = amount).length = available proofs amount := by
  apply Nat.le_antisymm (h.count_le amount)
  apply List.Subperm.length_le
  apply List.subperm_of_subset (List.nodup_dedup _)
  intro p hp
  obtain ⟨hp, hamount⟩ := List.mem_filter.mp (List.mem_dedup.mp hp)
  exact List.mem_filter.mpr ⟨hall p hp (of_decide_eq_true hamount), hamount⟩

/-- What is selected for some parts: a proof for every part as long as there are such proofs, and
then the part remains. -/
structure Counted (proofs : List Proof) (parts : List Amount) (acc : List Proof × List Amount) :
    Prop where
  picked : Picked proofs acc.1
  selected : ∀ a, (acc.1.filter fun p => p.amount = a).length =
    min (parts.count a) (available proofs a)
  remaining : ∀ a, acc.2.count a = parts.count a - available proofs a

theorem counted_nil : Counted proofs [] ([], []) where
  picked := ⟨List.nodup_nil, by simp⟩
  selected a := by simp
  remaining a := by simp

theorem Counted.selectOptimal {parts : List Amount} {acc : List Proof × List Amount}
    (hsorted : Descending proofs) (h : Counted proofs parts acc) (part : Amount) :
    Counted proofs (parts ++ [part]) (selectOptimal proofs acc part) := by
  have hpicked : Picked proofs (Selection.selectOptimal proofs acc part).1 :=
    h.picked.selectProof part true
  have hcount (a : Amount) : (parts ++ [part]).count a =
      parts.count a + if part = a then 1 else 0 := by
    rw [List.count_append, List.count_singleton]
    simp only [beq_iff_eq]
  have hselected := h.selected
  have hremaining := h.remaining
  rcases selectProof_cases hsorted part true acc.1 with ⟨p, heq, hp⟩ | ⟨heq, hall⟩
  · have hp : p.amount = part := hp
    have hround : Selection.selectOptimal proofs acc part = (acc.1 ++ [p], acc.2) := by
      rw [Selection.selectOptimal, heq]
      rfl
    rw [hround] at hpicked ⊢
    have hmore (a : Amount) : ((acc.1 ++ [p]).filter fun p => p.amount = a).length =
        (acc.1.filter fun p => p.amount = a).length + if part = a then 1 else 0 := by
      rw [List.filter_append, List.length_append, List.filter_singleton, hp]
      by_cases ha : part = a <;> simp [ha]
    have hle := hpicked.count_le part
    constructor
    · exact hpicked
    · intro a
      dsimp only
      rw [hmore a, hcount a, hselected a]
      by_cases ha : part = a
      · subst ha
        rw [hmore part, hselected part] at hle
        simp only [if_true] at hle ⊢
        omega
      · simp only [if_neg ha, Nat.add_zero]
    · intro a
      dsimp only
      rw [hcount a, hremaining a]
      by_cases ha : part = a
      · subst ha
        rw [hmore part, hselected part] at hle
        simp only [if_true] at hle ⊢
        omega
      · simp only [if_neg ha, Nat.add_zero]
  · have hround : Selection.selectOptimal proofs acc part = (acc.1, acc.2 ++ [part]) := by
      rw [Selection.selectOptimal, heq]
      rfl
    have hfull := @Picked.count_eq _ _ part h.picked hall
    rw [hselected part] at hfull
    rw [hround] at hpicked ⊢
    constructor
    · exact hpicked
    · intro a
      dsimp only
      rw [hcount a, hselected a]
      by_cases ha : part = a
      · subst ha
        simp only [if_true]
        omega
      · simp only [if_neg ha, Nat.add_zero]
    · intro a
      dsimp only
      rw [List.count_append, List.count_singleton, hcount a, hremaining a]
      simp only [beq_iff_eq]
      by_cases ha : part = a
      · subst ha
        simp only [if_true]
        omega
      · simp only [if_neg ha, Nat.add_zero]

theorem Counted.foldl {parts : List Amount} {acc : List Proof × List Amount}
    (hsorted : Descending proofs) (h : Counted proofs parts acc) (more : List Amount) :
    Counted proofs (parts ++ more) (more.foldl (Selection.selectOptimal proofs) acc) := by
  induction more generalizing parts acc with
  | nil => rwa [List.append_nil]
  | cons part more ih =>
      have hlater := ih (h.selectOptimal hsorted part)
      rwa [List.append_assoc] at hlater

/-- Nothing remains if there are enough proofs for all parts. -/
theorem Counted.remaining_eq_nil {parts : List Amount} {acc : List Proof × List Amount}
    (h : Counted proofs parts acc) :
    acc.2 = [] ↔ ∀ a ∈ parts, parts.count a ≤ available proofs a := by
  have hnone (a : Amount) : a ∉ acc.2 ↔ parts.count a ≤ available proofs a := by
    rw [← List.count_eq_zero, h.remaining a, Nat.sub_eq_zero_iff_le]
  rw [List.eq_nil_iff_forall_not_mem]
  constructor
  · intro hall a _
    exact (hnone a).mp (hall a)
  · intro hall a
    by_cases ha : a ∈ parts
    · exact (hnone a).mpr (hall a ha)
    · rw [hnone a, List.count_eq_zero.mpr ha]
      exact Nat.zero_le _

end Counting

/-! ## The keysets -/

section Keysets

variable {proofs : List Proof} {amount : Amount} {denominations : List Amount} {n : Nat}

/-- The keysets of one list of denominations select the same parts again and again. -/
theorem foldlM_selectForKeyset_eq (hpowers : PowersBelow n denominations)
    {entries : List (Id × Counters.FeeAndAmounts)}
    (hentries : ∀ entry ∈ entries, entry.2.amounts = denominations)
    (acc : List Proof × List Amount) :
    entries.foldlM (selectForKeyset amount proofs) acc = .ok
      ((List.replicate entries.length
        (splitParts denominations.reverse amount.toNat)).flatten.foldl
          (selectOptimal proofs) acc) := by
  induction entries generalizing acc with
  | nil => rfl
  | cons entry entries ih =>
      obtain ⟨hentry, hrest⟩ := List.forall_mem_cons.mp hentries
      rw [List.foldlM_cons, selectForKeyset, hentry, hpowers.split_eq, Outcome.bind_ok,
        Outcome.bind_ok, ih hrest, List.length_cons, List.replicate_succ, List.flatten_cons,
        List.foldl_append]

theorem nodup_split (hpowers : PowersBelow n denominations) (left : Nat) :
    (splitParts denominations.reverse left).Nodup := by
  apply (splitParts_sublist _ _).nodup
  apply hpowers.pairwise_reverse.imp
  rintro a _ hlt rfl
  exact Nat.lt_irrefl _ hlt

theorem total_flatten (m : Nat) (parts : List Amount) :
    Amount.total (List.replicate m parts).flatten = m * Amount.total parts := by
  induction m with
  | zero => simp
  | succ m ih =>
      rw [List.replicate_succ, List.flatten_cons, Amount.total_append, ih]
      ring

/-- Each part is asked for as often as there are keysets. -/
theorem count_flatten {parts : List Amount} (hnodup : parts.Nodup) (m : Nat) {a : Amount}
    (ha : a ∈ parts) : (List.replicate m parts).flatten.count a = m := by
  rw [List.count_flatten, List.map_replicate, List.sum_replicate, hnodup.count, if_pos ha]
  exact Nat.mul_one m

/-- Different amounts with a proof each are worth at most the proofs. -/
theorem total_le_worth {parts : List Amount} (hnodup : parts.Nodup)
    (hown : ∀ part ∈ parts, ∃ p ∈ proofs, p.amount = part) : Amount.total parts ≤ worth proofs := by
  obtain ⟨sub, hperm, hsub⟩ := List.subperm_of_subset hnodup fun part hpart =>
    List.mem_map.mpr (hown part hpart)
  have htotal : Amount.total sub = Amount.total parts := Amount.total_perm hperm
  rw [← htotal]
  exact Amount.total_le_of_sublist hsub

/-- The loop over the halves keeps what is selected. -/
theorem prefix_selectHalvesBy (hsorted : Descending proofs) (double : Int → Int) (k : Int)
    (target : Amount) (selected : List Proof) :
    selected <+: (selectHalvesBy double proofs k target selected).1 := by
  induction k, target, selected using selectHalvesBy.induct double proofs with
  | case1 k target selected currAmount hzero =>
      rw [selectHalvesBy, if_pos hzero]
  | case2 k target selected currAmount hzero next count hupTo rest hrest =>
      have hnext := selectUpTo_spec hsorted currAmount k.toNat selected
      rw [hupTo] at hnext
      rw [selectHalvesBy, if_neg hzero, hupTo]
      dsimp only
      rw [if_pos hrest]
      exact hnext.1
  | case3 k target selected currAmount hzero next count hupTo rest hrest ih =>
      have hnext := selectUpTo_spec hsorted currAmount k.toNat selected
      rw [hupTo] at hnext
      rw [selectHalvesBy, if_neg hzero, hupTo]
      dsimp only
      rw [if_neg hrest]
      exact hnext.1.trans ih

theorem prefix_selectRemainingBy (hsorted : Descending proofs) (double : Int → Int)
    (remainingAmounts : List Amount) (selected : List Proof) :
    selected <+: remainingAmounts.foldl (selectRemainingBy double proofs) selected := by
  induction remainingAmounts generalizing selected with
  | nil => exact List.prefix_rfl
  | cons remainingAmount rest ih =>
      rw [List.foldl_cons]
      refine List.IsPrefix.trans ?_ (ih _)
      have hhalves := prefix_selectHalvesBy hsorted double 2 remainingAmount selected
      rw [selectRemainingBy]
      dsimp only
      split
      · exact hhalves
      · rcases selectProof_cases hsorted remainingAmount false
          (selectHalvesBy double proofs 2 remainingAmount selected).1 with ⟨p, heq, -⟩ | ⟨heq, -⟩
        · rw [heq]
          exact hhalves.trans (List.prefix_append _ [p])
        · rw [heq]
          exact hhalves

end Keysets

/-- The end of the choice drops what is not needed, and gets to the amount if it can. -/
theorem exists_dropped {amount : Amount} {selected : List Proof} (hpos : 0 < amount.toNat)
    (hle : amount.toNat ≤ worth selected) (hlt : worth selected < 2 ^ 64) :
    ∃ chosen, (totalAmount selected >>= fun total =>
        if total ≠ amount ∧ 1 < selected.length then
          selectLeastAmountOver (sortDescending selected) amount
        else .ok selected) = .ok chosen ∧
      (worth chosen = amount.toNat ↔ ExactRun amount (sortDescending selected)) := by
  have hperm := sortDescending_perm selected
  have hworth := worth_perm hperm
  have htotal : totalAmount selected = .ok ⟨worth selected, hlt⟩ := totalAmount_eq_ok.mpr rfl
  rw [htotal, Outcome.bind_ok]
  by_cases hexact : worth selected = amount.toNat
  · have heq : (⟨worth selected, hlt⟩ : Amount) = amount := Amount.ext_toNat hexact
    refine ⟨selected, if_neg fun h => h.1 heq, ?_⟩
    exact iff_of_true hexact (exactRun_of_worth hpos (hworth.trans hexact))
  · have hne : (⟨worth selected, hlt⟩ : Amount) ≠ amount := fun h =>
      hexact (congrArg Amount.toNat h)
    by_cases hlen : 1 < selected.length
    · obtain ⟨least, hleast⟩ := exists_selectLeastAmountOver (hworth ▸ hle) (hworth ▸ hlt)
      rw [if_pos ⟨hne, hlen⟩]
      exact ⟨least, hleast,
        selectLeastAmountOver_exact_iff hpos (hworth ▸ hle) (hworth ▸ hlt) hleast⟩
    · -- a single proof would be kept
      have hkept : selectLeastAmountOver (sortDescending selected) amount =
          .ok (sortDescending selected) := by
        rw [selectLeastAmountOver_eq (hworth ▸ hlt) (hworth ▸ hle), leastFrom]
        exact if_neg fun h => hlen (hperm.length_eq ▸ h)
      refine ⟨selected, if_neg fun h => hlen h.2, ?_⟩
      rw [← hworth]
      exact selectLeastAmountOver_exact_iff hpos (hworth ▸ hle) (hworth ▸ hlt) hkept

section Exact

variable (order feeOrder : HashOrder) (amount : Amount) (proofs : List Proof)
  (activeKeysetIds : List Id) (fees : KeysetFeeAndAmounts)

/-- The selection without fees is worth the amount. -/
def SelectsExactly : Prop :=
  ∃ chosen, selectProofs order feeOrder amount proofs activeKeysetIds fees false = .ok chosen ∧
    worth chosen = amount.toNat

/-- What has been selected, for proofs of active keysets, before proofs that are not needed are
dropped. -/
def beforeDropping : List Proof :=
  match fees.entries.rows.foldlM (selectForKeyset amount (sortDescending proofs)) ([], []) with
  | .ok (selected, remainingAmounts) =>
      sortDescending (order.visit
        (remainingAmounts.foldl (selectRemaining (sortDescending proofs)) selected))
  | _ => []

variable {order feeOrder amount proofs activeKeysetIds fees} {denominations : List Amount} {n : Nat}

theorem available_perm {others : List Proof} (h : proofs.Perm others) (a : Amount) :
    available proofs a = available others a :=
  ((h.filter _).dedup).length_eq

theorem available_pos {p : Proof} {a : Amount} (hp : p ∈ proofs) (ha : p.amount = a) :
    0 < available proofs a :=
  List.length_pos_of_mem (List.mem_dedup.mpr (List.mem_filter.mpr ⟨hp, decide_eq_true ha⟩))

theorem inactiveProofs_nil (hactive : ∀ p ∈ proofs, p.keysetId ∈ activeKeysetIds) :
    inactiveProofs activeKeysetIds proofs = [] := by
  rw [inactiveProofs, List.dedup_eq_nil, List.filter_eq_nil_iff]
  intro p hp hinactive
  exact of_decide_eq_true hinactive (hactive p hp)

/-- A selection is worth at most all proofs. -/
theorem Picked.worth_le {selected : List Proof} (h : Picked proofs selected) :
    worth selected ≤ worth proofs := by
  obtain ⟨sub, hperm, hsub⟩ := List.subperm_of_subset h.nodup h.mem
  rw [← worth_perm hperm]
  exact worth_le_of_sublist hsub

/-- The selection without fees is exact if the choice for the sorted proofs is. -/
theorem selectsExactly_iff_choose (hpos : amount ≠ .zero) (hle : amount.toNat ≤ worth proofs)
    (hactive : ∀ p ∈ proofs, p.keysetId ∈ activeKeysetIds) :
    SelectsExactly order feeOrder amount proofs activeKeysetIds fees ↔
      worth proofs < 2 ^ 64 ∧ ∃ chosen,
        chooseProofs order amount (sortDescending proofs) [] fees = .ok chosen ∧
          worth chosen = amount.toNat := by
  have hsorted : ∀ p ∈ sortDescending proofs, p.keysetId ∈ activeKeysetIds := fun p hp =>
    hactive p ((sortDescending_perm proofs).mem_iff.mp hp)
  have hless : ¬ amount.toNat ≤ worth [] := fun h =>
    hpos (Amount.ext_toNat (Nat.le_zero.mp h))
  unfold SelectsExactly selectProofs
  simp only [selectFrom_eq_ok hpos, inactiveProofs_nil hactive, inactiveProofs_nil hsorted,
    if_neg hless, Bool.false_eq_true, if_false, and_iff_right hle]
  constructor
  · rintro ⟨chosen, ⟨hlt, before, hbefore, hchosen⟩, hworth⟩
    cases hchosen
    exact ⟨hlt, _, hbefore, hworth⟩
  · rintro ⟨hlt, chosen, hchosen, hworth⟩
    exact ⟨chosen, ⟨hlt, chosen, hchosen, rfl⟩, hworth⟩

/-- For every number of keysets of the same denominations: the selection without fees is exact just
if the sum of the proofs does not overflow and there is a single keyset, or a part with fewer
proofs than keysets and a run of the selected proofs to cut down to. -/
theorem selectsExactly_iff {parts : List Amount} (hpowers : PowersBelow n denominations)
    (hlt : amount.toNat < 2 ^ n) (hpos : amount ≠ .zero)
    (hfees : ∀ entry ∈ fees.entries.rows, entry.2.amounts = denominations)
    (hactive : ∀ p ∈ proofs, p.keysetId ∈ activeKeysetIds)
    (hparts : (amount.split denominations : Outcome Error (List Amount)) = .ok parts)
    (hown : ∀ part ∈ parts, ∃ p ∈ proofs, p.amount = part) :
    SelectsExactly order feeOrder amount proofs activeKeysetIds fees ↔
      worth proofs < 2 ^ 64 ∧ (fees.entries.rows.length = 1 ∨
        (∃ part ∈ parts, available proofs part < fees.entries.rows.length) ∧
          ExactRun amount (beforeDropping order amount proofs fees)) := by
  rw [hpowers.split_eq] at hparts
  cases hparts
  generalize hparts : splitParts denominations.reverse amount.toNat = parts at hown ⊢
  have hnodup : parts.Nodup := hparts ▸ nodup_split hpowers _
  have htotal : Amount.total parts = amount.toNat := hparts ▸ (hpowers.total_split _).mpr hlt
  have hamount : 0 < amount.toNat := Nat.pos_of_ne_zero fun h => hpos (Amount.ext_toNat h)
  have hle : amount.toNat ≤ worth proofs := htotal ▸ total_le_worth hnodup hown
  rw [selectsExactly_iff_choose hpos hle hactive]
  refine and_congr_right fun hsmall => ?_
  have hperm := sortDescending_perm proofs
  have hsorted := descending_sortDescending proofs
  have hselected : fees.entries.rows.foldlM (selectForKeyset amount (sortDescending proofs))
      ([], []) = _ := foldlM_selectForKeyset_eq hpowers hfees ([], [])
  have hcounted : Counted (sortDescending proofs) _ _ := counted_nil.foldl hsorted
    (List.replicate fees.entries.rows.length parts).flatten
  have hworth := (foldl_selectOptimal hsorted
    (List.replicate fees.entries.rows.length parts).flatten ([], [])).1
  rw [hparts] at hselected
  rw [List.nil_append] at hcounted
  generalize fees.entries.rows.length = m at hselected hcounted hworth ⊢
  generalize (List.replicate m parts).flatten.foldl (selectOptimal (sortDescending proofs))
    ([], []) = acc at hselected hcounted hworth
  have hfull : acc.2 = [] ↔ ∀ part ∈ parts, m ≤ available proofs part := by
    rw [hcounted.remaining_eq_nil]
    simp only [available_perm hperm]
    constructor
    · intro hall part hpart
      rcases Nat.eq_zero_or_pos m with rfl | hm
      · exact Nat.zero_le _
      · rw [← count_flatten hnodup m hpart]
        exact hall part (List.count_pos_iff.mp (by rwa [count_flatten hnodup m hpart]))
    · intro hall part hpart
      obtain ⟨copy, hcopy, hpart⟩ := List.mem_flatten.mp hpart
      rw [(List.mem_replicate.mp hcopy).2] at hpart
      rw [count_flatten hnodup m hpart]
      exact hall part hpart
  obtain ⟨selected, remainingAmounts⟩ := acc
  dsimp only at hfull hworth
  rw [chooseProofs, chooseProofsBy, beforeDropping, selectRemaining, hselected, Outcome.bind_ok]
  dsimp only
  by_cases hnone : remainingAmounts = []
  · -- all parts are selected for all keysets
    have hlack : ¬ ∃ part ∈ parts, available proofs part < m := by
      rintro ⟨part, hpart, hless⟩
      exact absurd (hfull.mp hnone part hpart) (Nat.not_le_of_lt hless)
    rw [hnone, total_flatten, htotal] at hworth
    simp only [worth_nil, Amount.total_nil, Nat.add_zero, Nat.zero_add] at hworth
    rw [if_pos hnone, or_iff_left fun h => hlack h.1]
    simp only [Outcome.ok.injEq, exists_eq_left', worth_perm (order.perm selected), hworth]
    exact Nat.mul_eq_right hamount.ne'
  · have hlack : ∃ part ∈ parts, available proofs part < m := by
      by_contra hall
      apply hnone
      rw [hfull]
      intro part hpart
      exact Nat.le_of_not_lt fun hless => hall ⟨part, hpart, hless⟩
    obtain ⟨lacking, hlacking, hless⟩ := hlack
    have hsome (part : Amount) (hpart : part ∈ parts) : 0 < available proofs part := by
      obtain ⟨p, hp, hamount⟩ := hown part hpart
      exact available_pos hp hamount
    have hm : m ≠ 1 := by
      rintro rfl
      exact absurd (hsome lacking hlacking) (Nat.not_lt_of_le (Nat.le_of_lt_succ hless))
    have hpositive : 0 < m := (hsome lacking hlacking).trans hless
    -- a proof of every part is selected
    have hparts : amount.toNat ≤ worth selected := by
      rw [← htotal]
      apply total_le_worth hnodup
      intro part hpart
      have hcount : (selected.filter fun p => p.amount = part).length = _ := hcounted.selected part
      rw [count_flatten hnodup m hpart, available_perm hperm] at hcount
      have hpart := hsome part hpart
      obtain ⟨p, hp⟩ := List.exists_mem_of_length_pos (hcount ▸ Nat.lt_min.mpr ⟨hpositive, hpart⟩)
      obtain ⟨hp, hamount⟩ := List.mem_filter.mp hp
      exact ⟨p, hp, of_decide_eq_true hamount⟩
    have hgrown := prefix_selectRemainingBy hsorted doubleI32 remainingAmounts selected
    have hpicked : Picked (sortDescending proofs)
        (remainingAmounts.foldl (selectRemainingBy doubleI32 (sortDescending proofs)) selected) :=
      hcounted.picked.selectRemainingBy doubleI32 remainingAmounts
    have hvisit := worth_perm (order.perm
      (remainingAmounts.foldl (selectRemainingBy doubleI32 (sortDescending proofs)) selected))
    have henough := worth_le_of_sublist hgrown.sublist
    have hbounded := hpicked.worth_le
    rw [worth_perm hperm] at hbounded
    rw [← hvisit] at henough hbounded
    obtain ⟨chosen, hchosen, hexact⟩ := exists_dropped hamount (hparts.trans henough)
      (hbounded.trans_lt hsmall)
    rw [if_neg hnone, hchosen, or_iff_right hm,
      and_iff_right ⟨lacking, hlacking, hless⟩]
    simp only [Outcome.ok.injEq, exists_eq_left']
    exact hexact

/-- Two proofs are selected for their sum with a single keyset. -/
theorem selectsExactly_iff_three :
    SelectsExactly insertionOrder insertionOrder 3 [sampleProof 2 "a", sampleProof 1 "b"] [.v1 1]
      feeMap := by
  have hparts : (Amount.split 3 [1, 2, 4, 8] : Outcome Error (List Amount)) = .ok [2, 1] := by
    decide +kernel
  have hpowers : PowersBelow 4 [1, 2, 4, 8] := by
    unfold PowersBelow
    decide
  apply (selectsExactly_iff hpowers (by decide) (by decide) _ (by decide +kernel) hparts _).mpr
  · exact ⟨by decide +kernel, .inl rfl⟩
  · exact List.forall_mem_singleton.mpr rfl
  · intro part hpart
    rcases List.mem_pair.mp hpart with rfl | rfl
    · exact ⟨sampleProof 2 "a", by decide +kernel, rfl⟩
    · exact ⟨sampleProof 1 "b", by decide +kernel, rfl⟩

/-- Two keysets without fees. -/
def twoKeysets : KeysetFeeAndAmounts where
  entries := ⟨[(.v1 1, ⟨0, [1, 2, 4, 8]⟩), (.v1 2, ⟨0, [1, 2, 4, 8]⟩)], by decide⟩
  fee_lt := by decide

/-- With two keysets, twice the amount is selected. -/
theorem not_selectsExactly_two :
    (∀ entry ∈ twoKeysets.entries.rows, PowersBelow 4 entry.2.amounts) ∧
      (Amount.split 3 [1, 2, 4, 8] : Outcome Error (List Amount)) = .ok [2, 1] ∧
      selectProofs insertionOrder insertionOrder 3
          [sampleProof 2 "a", sampleProof 2 "b", sampleProof 1 "c", sampleProof 1 "d"]
          [.v1 1, .v1 2] twoKeysets false =
        .ok [sampleProof 2 "a", sampleProof 1 "c", sampleProof 2 "b", sampleProof 1 "d"] ∧
      ¬ SelectsExactly insertionOrder insertionOrder 3
          [sampleProof 2 "a", sampleProof 2 "b", sampleProof 1 "c", sampleProof 1 "d"]
          [.v1 1, .v1 2] twoKeysets := by
  have hresult : selectProofs insertionOrder insertionOrder 3
      [sampleProof 2 "a", sampleProof 2 "b", sampleProof 1 "c", sampleProof 1 "d"]
      [.v1 1, .v1 2] twoKeysets false =
        .ok [sampleProof 2 "a", sampleProof 1 "c", sampleProof 2 "b", sampleProof 1 "d"] := by
    decide +kernel
  refine ⟨?_, by decide +kernel, hresult, ?_⟩
  · unfold PowersBelow
    decide
  · rintro ⟨chosen, hchosen, hworth⟩
    cases hchosen.symm.trans hresult
    exact absurd hworth (by decide +kernel)

end Exact

end Selection

end Cdk
