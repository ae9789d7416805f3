import Cdk.Wallet.ExactProofs
import Cdk.Wallet.ExactSplits
import Mathlib.Tactic.Linarith

/-!
# What the selection is worth

With powers of two for amounts, the proofs that are selected for the parts of an
amount are worth the amount, or all proofs are selected. So the selection covers
what it is made for as long as no fee is charged.
-/

namespace Cdk

open Lib

namespace Selection

/-- The largest amounts come first. -/
def Descending (proofs : List Proof) : Prop :=
  proofs.Pairwise fun a b => b.amount.toNat ≤ a.amount.toNat

theorem descending_sortDescending (proofs : List Proof) : Descending (sortDescending proofs) := by
  have : Std.Total fun a b : Proof => b.amount ≤ a.amount := ⟨fun a b => Nat.le_total _ _⟩
  have : IsTrans Proof fun a b => b.amount ≤ a.amount := ⟨fun a b c hab hbc => Nat.le_trans hbc hab⟩
  exact List.pairwise_insertionSort _ proofs

/-- The proofs that `select_proof` is content with. -/
def Suits (amount : Amount) (exact : Bool) (p : Proof) : Prop :=
  if exact then p.amount = amount else amount.toNat ≤ p.amount.toNat

theorem Suits.le {amount : Amount} {exact : Bool} {p : Proof} (h : Suits amount exact p) :
    amount.toNat ≤ p.amount.toNat := by
  unfold Suits at h
  split at h
  · exact Nat.le_of_eq (congrArg Amount.toNat h.symm)
  · exact h

/-! ## One proof -/

section SelectProof

variable {proofs selected rest : List Proof} {amount : Amount} {exact : Bool} {p : Proof}
  {lastProof : Option Proof}

theorem findProof_suits (hlast : ∀ q ∈ lastProof, Suits amount exact q)
    (h : findProof selected amount exact rest lastProof = some p) : Suits amount exact p := by
  induction rest generalizing lastProof with
  | nil => exact hlast p h
  | cons proof rest ih =>
      rw [findProof] at h
      split_ifs at h with hsel heq hmore hless
      · exact ih hlast h
      · cases h
        unfold Suits
        split
        · exact heq
        · exact Nat.le_of_eq (congrArg Amount.toNat heq.symm)
      · apply ih _ h
        rintro q hq
        cases hq
        rw [Suits, hmore.1]
        exact Nat.le_of_lt hmore.2
      · exact hlast p h
      · exact ih hlast h

/-- Where nothing is found, the proofs that suit are selected already. -/
theorem findProof_eq_none (hsorted : Descending rest)
    (h : findProof selected amount exact rest lastProof = none) :
    lastProof = none ∧ ∀ p ∈ rest, Suits amount exact p → p ∈ selected := by
  induction rest generalizing lastProof with
  | nil => exact ⟨h, fun _ hp => nomatch hp⟩
  | cons proof rest ih =>
      obtain ⟨hhead, htail⟩ := List.pairwise_cons.mp hsorted
      rw [findProof] at h
      split_ifs at h with hsel heq hmore hless
      · obtain ⟨hnone, hrest⟩ := ih htail h
        exact ⟨hnone, List.forall_mem_cons.mpr ⟨fun _ => hsel, hrest⟩⟩
      · exact absurd (ih htail h).1 (Option.some_ne_none proof)
      · -- all later proofs are smaller as well
        refine ⟨h, fun p hp hsuits => ?_⟩
        have hle : p.amount.toNat ≤ proof.amount.toNat := by
          rcases List.mem_cons.mp hp with rfl | hp
          · exact Nat.le_refl _
          · exact hhead p hp
        have hless : proof.amount.toNat < amount.toNat := hless
        exact absurd hsuits.le (by omega)
      · obtain ⟨hnone, hrest⟩ := ih htail h
        refine ⟨hnone, List.forall_mem_cons.mpr ⟨fun hsuits => absurd ?_ heq, hrest⟩⟩
        cases exact with
        | true => exact hsuits
        | false =>
            have hmore : ¬ amount.toNat < proof.amount.toNat := fun hlt => hmore ⟨rfl, hlt⟩
            exact Amount.ext_toNat (Nat.le_antisymm (Nat.le_of_not_lt hmore) hsuits.le)

/-- `select_proof` adds a proof that suits, or all of those are selected. -/
theorem selectProof_cases (hsorted : Descending proofs) (amount : Amount) (exact : Bool)
    (selected : List Proof) :
    (∃ p, selectProof proofs amount exact selected = (selected ++ [p], true) ∧
        Suits amount exact p) ∨
      (selectProof proofs amount exact selected = (selected, false) ∧
        ∀ p ∈ proofs, Suits amount exact p → p ∈ selected) := by
  unfold selectProof
  cases h : findProof selected amount exact proofs none with
  | some p => exact .inl ⟨p, rfl, findProof_suits (by simp) h⟩
  | none => exact .inr ⟨rfl, (findProof_eq_none hsorted h).2⟩

end SelectProof

/-! ## The loops -/

section Loops

variable {proofs : List Proof}

/-- The proofs that are selected for an amount are counted, and if there are too few of them, none
is left. -/
theorem selectUpTo_spec (hsorted : Descending proofs) (amount : Amount) (n : Nat)
    (selected : List Proof) :
    let (next, count) := selectUpTo proofs amount n selected
    selected <+: next ∧ worth next = worth selected + count * amount.toNat ∧ count ≤ n ∧
      (count < n → ∀ p ∈ proofs, p.amount = amount → p ∈ next) := by
  induction n generalizing selected with
  | zero => simp [selectUpTo]
  | succ n ih =>
      rw [selectUpTo]
      rcases selectProof_cases hsorted amount true selected with ⟨p, heq, hp⟩ | ⟨heq, hall⟩
      · obtain ⟨hgrown, hworth, hcount, hrest⟩ := ih (selected ++ [p])
        have hp : p.amount = amount := hp
        rw [heq]
        refine ⟨(List.prefix_append selected [p]).trans hgrown, ?_, by simpa using hcount, ?_⟩
        · rw [hworth, worth_append, worth_cons, worth_nil, hp]
          ring
        · intro hlt
          exact hrest (by simpa using hlt)
      · rw [heq]
        refine ⟨List.prefix_rfl, by simp, Nat.zero_le _, fun _ p hp hamount => ?_⟩
        exact hall p hp hamount

/-- The halves of one are none. -/
theorem selectHalvesBy_one {double : Int → Int} {target : Amount} (htarget : target.toNat = 1)
    (n : Int) (selected : List Proof) :
    selectHalvesBy double proofs n target selected = (selected, false) := by
  rw [selectHalvesBy]
  apply if_pos
  change target.toNat / 2 = 0
  rw [htarget]

/-- The loop over the halves of a power of two selects proofs that are worth `n` halves, or all
proofs below the power, if doubling is exact as long as it is needed. -/
theorem selectHalvesBy_spec (hsorted : Descending proofs)
    (hpower : ∀ p ∈ proofs, ∃ j, p.amount.toNat = 2 ^ j) {double : Int → Int} {bound : Int}
    (hdouble : ∀ m, 0 ≤ m → m * 4 ≤ bound → double m = m * 2) {k : Nat}
    {target : Amount} (htarget : target.toNat = 2 ^ k) {n : Int} (hn : 0 ≤ n)
    (hbound : n * 2 ^ k ≤ bound) (selected : List Proof) :
    let (next, found) := selectHalvesBy double proofs n target selected
    selected <+: next ∧
      (found = true → (2 * worth next : Int) = 2 * worth selected + n * 2 ^ k) ∧
      (found = false → ∀ p ∈ proofs, p.amount.toNat < 2 ^ k → p ∈ next) := by
  induction k generalizing target n selected with
  | zero =>
      rw [selectHalvesBy_one htarget]
      refine ⟨List.prefix_rfl, by simp, fun _ p hp hlt => ?_⟩
      obtain ⟨j, hj⟩ := hpower p hp
      have := Nat.two_pow_pos j
      omega
  | succ k ih =>
      have hhalf : (half target).toNat = 2 ^ k := by
        change target.toNat / 2 = 2 ^ k
        rw [htarget, Nat.pow_succ, Nat.mul_div_cancel _ (by decide)]
      have hupTo := selectUpTo_spec hsorted (half target) n.toNat selected
      rw [selectHalvesBy, if_neg (by rw [hhalf]; exact (Nat.two_pow_pos k).ne')]
      generalize selectUpTo proofs (half target) n.toNat selected = r at hupTo
      obtain ⟨next, count⟩ := r
      obtain ⟨hgrown, hworth, hcount, hall⟩ := hupTo
      dsimp only
      rw [hhalf] at hworth
      have hworth : (worth next : Int) = worth selected + count * 2 ^ k := by exact_mod_cast hworth
      rw [pow_succ] at hbound
      split
      next hzero =>
        refine ⟨hgrown, fun _ => ?_, by simp⟩
        have hn : n = count := by omega
        rw [hworth, hn, pow_succ]
        ring
      next hmore =>
        have hhalves : ∀ p ∈ proofs, p.amount.toNat = 2 ^ k → p ∈ next := fun p hp hpk =>
          hall (by omega) p hp (Amount.ext_toNat (hpk.trans hhalf.symm))
        have below {last : List Proof} (hlast : next <+: last)
            (hsmall : ∀ p ∈ proofs, p.amount.toNat < 2 ^ k → p ∈ last) :
            ∀ p ∈ proofs, p.amount.toNat < 2 ^ (k + 1) → p ∈ last := by
          intro p hp hlt
          obtain ⟨j, hj⟩ := hpower p hp
          rw [hj, Nat.pow_lt_pow_iff_right (by decide)] at hlt
          rcases Nat.lt_succ_iff_lt_or_eq.mp hlt with hjk | rfl
          · exact hsmall p hp (by rw [hj, Nat.pow_lt_pow_iff_right (by decide)]; exact hjk)
          · exact hlast.subset (hhalves p hp hj)
        cases k with
        | zero =>
            rw [selectHalvesBy_one hhalf]
            refine ⟨hgrown, by simp, fun _ => below List.prefix_rfl fun p hp hlt => ?_⟩
            obtain ⟨j, hj⟩ := hpower p hp
            have := Nat.two_pow_pos j
            omega
        | succ k =>
            have htwo : (1 : Int) ≤ 2 ^ k := Int.pow_pos (by decide)
            have hexact : double (n - count) = (n - count) * 2 := by
              apply hdouble _ (by omega)
              rw [pow_succ] at hbound
              nlinarith
            have hrest : (n - count) * 2 * 2 ^ (k + 1) ≤ bound := by
              nlinarith
            have hlater := ih hhalf (n := (n - count) * 2) (by omega) hrest next
            rw [hexact]
            generalize selectHalvesBy double proofs ((n - count) * 2) (half target) next = r
              at hlater
            obtain ⟨last, found⟩ := r
            obtain ⟨hlast, hfound, hnone⟩ := hlater
            refine ⟨hgrown.trans hlast, fun h => ?_, fun h => below hlast (hnone h)⟩
            rw [hfound h, hworth, pow_succ _ (k + 1)]
            ring

/-- A power of two that the loop over its halves counts without wrapping. -/
def SmallPower (amount : Amount) : Prop := ∃ k ≤ 30, amount.toNat = 2 ^ k

/-- The selection is worth some value, or all proofs are selected. -/
def Reaches (proofs selected : List Proof) (value : Nat) : Prop :=
  value ≤ worth selected ∨ ∀ p ∈ proofs, p ∈ selected

/-- A round for an amount adds proofs that are worth it, or all proofs are selected. -/
def Adds (proofs : List Proof) (round : List Proof → Amount → List Proof) (amount : Amount) :
    Prop :=
  ∀ selected, selected <+: round selected amount ∧
    Reaches proofs (round selected amount) (worth selected + amount.toNat)

theorem selectRemainingBy_adds (hsorted : Descending proofs)
    (hpower : ∀ p ∈ proofs, ∃ j, p.amount.toNat = 2 ^ j) {double : Int → Int} {bound : Int}
    (hdouble : ∀ m, 0 ≤ m → m * 4 ≤ bound → double m = m * 2) {k : Nat} {amount : Amount}
    (hamount : amount.toNat = 2 ^ k) (hbound : 2 * 2 ^ k ≤ bound) :
    Adds proofs (selectRemainingBy double proofs) amount := by
  intro selected
  have hhalves := selectHalvesBy_spec hsorted hpower hdouble hamount (by decide) hbound selected
  rw [selectRemainingBy]
  generalize selectHalvesBy double proofs 2 amount selected = r at hhalves
  obtain ⟨next, found⟩ := r
  obtain ⟨hgrown, hfound, hnone⟩ := hhalves
  have hmono := worth_le_of_sublist hgrown.sublist
  cases found with
  | true =>
      have hworth : worth next = worth selected + 2 ^ k := by
        have := hfound rfl
        push_cast [← Int.natCast_inj]
        linarith
      exact ⟨hgrown, .inl (by rw [hamount]; exact hworth.ge)⟩
  | false =>
      dsimp only
      rcases selectProof_cases hsorted amount false next with ⟨p, heq, hp⟩ | ⟨heq, hall⟩
      · rw [heq]
        have hle := hp.le
        refine ⟨hgrown.trans (List.prefix_append next [p]), .inl ?_⟩
        change _ ≤ worth (next ++ [p])
        rw [worth_append, worth_cons, worth_nil]
        omega
      · rw [heq]
        refine ⟨hgrown, .inr fun p hp => ?_⟩
        by_cases hle : amount.toNat ≤ p.amount.toNat
        · exact hall p hp hle
        · exact hnone rfl p hp (by omega)

/-- The counter does not wrap for the halves of small powers. -/
theorem adds_doubleI32 (hsorted : Descending proofs)
    (hpower : ∀ p ∈ proofs, ∃ j, p.amount.toNat = 2 ^ j) {amount : Amount}
    (hamount : SmallPower amount) : Adds proofs (selectRemainingBy doubleI32 proofs) amount := by
  obtain ⟨k, hk, hamount⟩ := hamount
  have hdouble : ∀ m : Int, 0 ≤ m → m * 4 ≤ 2 ^ 31 → doubleI32 m = m * 2 := fun m _ hm =>
    Int.bmod_eq_of_le (by omega) (by omega)
  have hpow : (2 : Int) ^ k ≤ 2 ^ 30 := pow_le_pow_right₀ (by decide) hk
  exact selectRemainingBy_adds hsorted hpower hdouble hamount (by omega)

/-- An unbounded counter is exact for all powers. -/
theorem adds_unbounded (hsorted : Descending proofs)
    (hpower : ∀ p ∈ proofs, ∃ j, p.amount.toNat = 2 ^ j) {amount : Amount}
    (hamount : ∃ k, amount.toNat = 2 ^ k) :
    Adds proofs (selectRemainingBy (· * 2) proofs) amount := by
  obtain ⟨k, hamount⟩ := hamount
  exact selectRemainingBy_adds hsorted hpower (fun _ _ _ => rfl) hamount (le_refl (2 * 2 ^ k))

theorem foldl_adds {round : List Proof → Amount → List Proof} {amounts : List Amount}
    (hadds : ∀ amount ∈ amounts, Adds proofs round amount) (selected : List Proof) :
    selected <+: amounts.foldl round selected ∧
      Reaches proofs (amounts.foldl round selected) (worth selected + Amount.total amounts) := by
  induction amounts generalizing selected with
  | nil => exact ⟨List.prefix_rfl, .inl (by simp)⟩
  | cons amount amounts ih =>
      obtain ⟨hamount, hrest⟩ := List.forall_mem_cons.mp hadds
      obtain ⟨hgrown, hreaches⟩ := hamount selected
      obtain ⟨hlast, hworth⟩ := ih hrest (round selected amount)
      rw [List.foldl_cons, Amount.total_cons]
      refine ⟨hgrown.trans hlast, ?_⟩
      rcases hreaches with hreaches | hall
      · exact hworth.imp_left fun hworth => by omega
      · exact .inr fun p hp => hlast.subset (hall p hp)

/-- The parts are selected or remain. -/
theorem foldl_selectOptimal (hsorted : Descending proofs) (parts : List Amount)
    (acc : List Proof × List Amount) :
    worth (parts.foldl (selectOptimal proofs) acc).1 +
          Amount.total (parts.foldl (selectOptimal proofs) acc).2 =
        worth acc.1 + Amount.total acc.2 + Amount.total parts ∧
      ∀ a ∈ (parts.foldl (selectOptimal proofs) acc).2, a ∈ acc.2 ∨ a ∈ parts := by
  induction parts generalizing acc with
  | nil => exact ⟨rfl, fun _ => .inl⟩
  | cons part parts ih =>
      obtain ⟨hworth, hmem⟩ := ih (selectOptimal proofs acc part)
      have hround : worth (selectOptimal proofs acc part).1 +
            Amount.total (selectOptimal proofs acc part).2 =
          worth acc.1 + Amount.total acc.2 + part.toNat ∧
          ∀ a ∈ (selectOptimal proofs acc part).2, a ∈ acc.2 ∨ a = part := by
        rw [selectOptimal]
        rcases selectProof_cases hsorted part true acc.1 with ⟨p, heq, hp⟩ | ⟨heq, -⟩
        · have hp : p.amount = part := hp
          rw [heq]
          dsimp only
          rw [worth_append, worth_cons, worth_nil, hp, if_pos rfl]
          exact ⟨by omega, fun _ => .inl⟩
        · rw [heq]
          dsimp only
          rw [if_neg (by decide), Amount.total_append, Amount.total_cons, Amount.total_nil]
          refine ⟨by omega, fun a ha => ?_⟩
          exact (List.mem_append.mp ha).imp_right List.mem_singleton.mp
      rw [List.foldl_cons, Amount.total_cons, hworth, hround.1]
      refine ⟨by omega, fun a ha => ?_⟩
      rcases hmem a ha with ha | ha
      · rcases hround.2 a ha with ha | rfl
        · exact .inl ha
        · exact .inr List.mem_cons_self
      · exact .inr (List.mem_cons_of_mem _ ha)

/-- A keyset adds the parts of the amount, which are all of it if it is below the bound. -/
theorem selectForKeyset_spec (hsorted : Descending proofs) {amount : Amount}
    {acc last : List Proof × List Amount} {entry : Id × Counters.FeeAndAmounts} {n : Nat}
    (hpowers : PowersBelow n entry.2.amounts)
    (h : selectForKeyset amount proofs acc entry = .ok last) :
    worth acc.1 + Amount.total acc.2 ≤ worth last.1 + Amount.total last.2 ∧
      (amount.toNat < 2 ^ n → worth acc.1 + Amount.total acc.2 + amount.toNat ≤
        worth last.1 + Amount.total last.2) ∧
      ∀ a ∈ last.2, a ∈ acc.2 ∨ a ∈ entry.2.amounts := by
  rw [selectForKeyset, hpowers.split_eq, Outcome.bind_ok] at h
  cases h
  obtain ⟨hworth, hmem⟩ := foldl_selectOptimal hsorted
    (splitParts entry.2.amounts.reverse amount.toNat) acc
  refine ⟨by omega, fun hlt => ?_, fun a ha => ?_⟩
  · have hexact := (hpowers.total_split amount.toNat).mpr hlt
    omega
  · exact (hmem a ha).imp_right fun hpart => (hpowers.mem_split hpart).1

theorem foldlM_selectForKeyset (hsorted : Descending proofs) {amount : Amount}
    {acc last : List Proof × List Amount} {entries : List (Id × Counters.FeeAndAmounts)}
    (hentries : ∀ entry ∈ entries, ∃ n, PowersBelow n entry.2.amounts)
    (h : entries.foldlM (selectForKeyset amount proofs) acc = .ok last) :
    worth acc.1 + Amount.total acc.2 ≤ worth last.1 + Amount.total last.2 ∧
      (∀ entry ∈ entries, (∃ n, PowersBelow n entry.2.amounts ∧ amount.toNat < 2 ^ n) →
        worth acc.1 + Amount.total acc.2 + amount.toNat ≤ worth last.1 + Amount.total last.2) ∧
      ∀ a ∈ last.2, a ∈ acc.2 ∨ ∃ entry ∈ entries, a ∈ entry.2.amounts := by
  induction entries generalizing acc with
  | nil =>
      cases h
      exact ⟨Nat.le_refl _, fun _ he => (nomatch he), fun _ => .inl⟩
  | cons entry entries ih =>
      rw [List.foldlM_cons, Outcome.bind_eq_ok] at h
      obtain ⟨next, hnext, h⟩ := h
      obtain ⟨⟨n, hpowers⟩, hrest⟩ := List.forall_mem_cons.mp hentries
      obtain ⟨hle, -, hmem⟩ := selectForKeyset_spec hsorted hpowers hnext
      obtain ⟨hmono, hlater, hlast⟩ := ih hrest h
      refine ⟨hle.trans hmono, ?_, fun a ha => ?_⟩
      · rintro e he ⟨m, hbelow, hlt⟩
        rcases List.mem_cons.mp he with rfl | he
        · exact ((selectForKeyset_spec hsorted hbelow hnext).2.1 hlt).trans hmono
        · have := hlater e he ⟨m, hbelow, hlt⟩
          omega
      · rcases hlast a ha with ha | ⟨e, he, ha⟩
        · exact (hmem a ha).imp_right fun ha => ⟨entry, List.mem_cons_self, ha⟩
        · exact .inr ⟨e, List.mem_cons_of_mem entry he, ha⟩

/-- With powers of two for denominations every keyset splits the amount. -/
theorem exists_selectForKeyset {amount : Amount} {acc : List Proof × List Amount}
    {entries : List (Id × Counters.FeeAndAmounts)}
    (hentries : ∀ entry ∈ entries, ∃ n, PowersBelow n entry.2.amounts) :
    ∃ last, entries.foldlM (selectForKeyset amount proofs) acc = .ok last := by
  induction entries generalizing acc with
  | nil => exact ⟨acc, rfl⟩
  | cons entry entries ih =>
      obtain ⟨⟨n, hpowers⟩, hrest⟩ := List.forall_mem_cons.mp hentries
      rw [List.foldlM_cons, selectForKeyset, hpowers.split_eq, Outcome.bind_ok, Outcome.bind_ok]
      exact ih hrest

end Loops

/-! ## Dropping what is not needed -/

/-- The loop comes back, where the calls on shorter selections do. -/
theorem exists_leastFrom {proofs : List Proof} {amount : Amount} {i : Nat}
    (hlt : worth proofs < 2 ^ 64)
    (ih : ∀ part, part.length < proofs.length → amount.toNat ≤ worth part →
      worth part < 2 ^ 64 → ∃ least, selectLeastAmountOver part amount = .ok least) :
    ∃ least, leastFrom proofs amount i = .ok least := by
  rw [leastFrom]
  split
  next hi =>
    have hsum : worth (proofs.take (i + 1)) + worth (proofs.drop (i + 1)) = worth proofs := by
      rw [← worth_append, List.take_append_drop]
    have total {part : List Proof} (h : worth part < 2 ^ 64) :
        totalAmount part = .ok ⟨worth part, h⟩ := totalAmount_eq_ok.mpr rfl
    have hleft (hle : amount.toNat ≤ worth (proofs.take (i + 1))) :=
      ih (proofs.take (i + 1)) (by rw [List.length_take]; omega) hle (by omega)
    have hright (hle : amount.toNat ≤ worth (proofs.drop (i + 1))) :=
      ih (proofs.drop (i + 1)) (by rw [List.length_drop]; omega) hle (by omega)
    have hleftLt : worth (proofs.take (i + 1)) < 2 ^ 64 := by omega
    have hrightLt : worth (proofs.drop (i + 1)) < 2 ^ 64 := by omega
    dsimp only
    rw [total hleftLt, Outcome.bind_ok, total hrightLt, Outcome.bind_ok]
    simp only [Amount.le_def]
    split_ifs with hboth hl hr
    · obtain ⟨leftProofs, hl⟩ := hleft hboth.1
      obtain ⟨rightProofs, hr⟩ := hright hboth.2
      have hleftLess := worth_le_of_sublist (selectLeastAmountOver_spec hl).1
      have hrightLess := worth_le_of_sublist (selectLeastAmountOver_spec hr).1
      have hleftSmall : worth leftProofs < 2 ^ 64 := by omega
      have hrightSmall : worth rightProofs < 2 ^ 64 := by omega
      rw [hl, hr]
      dsimp only
      rw [total hleftSmall, Outcome.bind_ok, total hrightSmall, Outcome.bind_ok]
      split
      · exact ⟨_, rfl⟩
      · exact ⟨_, rfl⟩
    · exact hleft hl
    · exact hright hr
    · exact exists_leastFrom hlt ih
  next => exact ⟨proofs, rfl⟩
termination_by proofs.length - i

/-- What is worth the amount can be reduced to what is needed. -/
theorem exists_selectLeastAmountOver {proofs : List Proof} {amount : Amount}
    (hle : amount.toNat ≤ worth proofs) (hlt : worth proofs < 2 ^ 64) :
    ∃ least, selectLeastAmountOver proofs amount = .ok least := by
  have htotal : totalAmount proofs = .ok ⟨worth proofs, hlt⟩ := totalAmount_eq_ok.mpr rfl
  have hnot : ¬ (⟨worth proofs, hlt⟩ : Amount) < amount := Nat.not_lt_of_le hle
  rw [selectLeastAmountOver, htotal, Outcome.bind_ok, if_neg hnot]
  split_ifs with hone
  · exact ⟨proofs, rfl⟩
  · exact exists_leastFrom hlt fun part _ hpart hsmall =>
      exists_selectLeastAmountOver hpart hsmall
termination_by proofs.length

/-! ## The selection -/

section Chosen

variable {order feeOrder : HashOrder} {amount : Amount} {proofs inactive chosen : List Proof}
  {activeKeysetIds : List Id} {fees : KeysetFeeAndAmounts} {double : Int → Int}

/-- The keysets have powers of two for denominations, and those of one are enough for the amount. -/
structure Splits (fees : KeysetFeeAndAmounts) (amount : Amount) : Prop where
  powers : ∀ entry ∈ fees.entries.rows, ∃ n ≤ 31, PowersBelow n entry.2.amounts
  enough : ∃ entry ∈ fees.entries.rows,
    ∃ n ≤ 31, PowersBelow n entry.2.amounts ∧ amount.toNat < 2 ^ n

/-- The rounds for the parts that remain add what they are for, and the denominations of one keyset
are enough for the amount. -/
structure Suffices (double : Int → Int) (fees : KeysetFeeAndAmounts) (amount : Amount)
    (proofs inactive : List Proof) : Prop where
  powers : ∀ entry ∈ fees.entries.rows, ∃ n, PowersBelow n entry.2.amounts
  enough : ∃ entry ∈ fees.entries.rows, ∃ n, PowersBelow n entry.2.amounts ∧ amount.toNat < 2 ^ n
  adds : ∀ selected remainingAmounts,
    fees.entries.rows.foldlM (selectForKeyset amount proofs) (inactive, []) =
      .ok (selected, remainingAmounts) →
    ∀ a ∈ remainingAmounts, Adds proofs (selectRemainingBy double proofs) a

/-- A part that remains is a denomination. -/
theorem Suffices.of_denominations (hsorted : Descending proofs)
    (hpowers : ∀ entry ∈ fees.entries.rows, ∃ n, PowersBelow n entry.2.amounts)
    (henough : ∃ entry ∈ fees.entries.rows,
      ∃ n, PowersBelow n entry.2.amounts ∧ amount.toNat < 2 ^ n)
    (hadds : ∀ entry ∈ fees.entries.rows, ∀ a ∈ entry.2.amounts,
      Adds proofs (selectRemainingBy double proofs) a) :
    Suffices double fees amount proofs inactive where
  powers := hpowers
  enough := henough
  adds selected remainingAmounts hselected a ha := by
    obtain ⟨-, -, hmem⟩ := foldlM_selectForKeyset hsorted hpowers hselected
    obtain ⟨entry, hentry, hdenomination⟩ := (hmem a ha).resolve_left List.not_mem_nil
    exact hadds entry hentry a hdenomination

theorem Splits.suffices (h : Splits fees amount) (hsorted : Descending proofs)
    (hpower : ∀ p ∈ proofs, ∃ j, p.amount.toNat = 2 ^ j) :
    Suffices doubleI32 fees amount proofs inactive := by
  apply Suffices.of_denominations hsorted
  · intro entry hentry
    exact (h.powers entry hentry).imp fun _ hn => hn.2
  · obtain ⟨entry, hentry, n, -, hn⟩ := h.enough
    exact ⟨entry, hentry, n, hn⟩
  · intro entry hentry a ha
    obtain ⟨n, hn, hpowers⟩ := h.powers entry hentry
    obtain ⟨k, hk, heq⟩ := hpowers.mem ha
    exact adds_doubleI32 hsorted hpower ⟨k, by omega, heq⟩

/-- What is selected before the unnecessary proofs are dropped is worth the amount. -/
theorem Suffices.le_worth (h : Suffices double fees amount proofs inactive) (hsorted : Descending proofs)
    (hnodup : proofs.Nodup) (hle : amount.toNat ≤ worth proofs)
    {selected : List Proof} {remainingAmounts : List Amount} (hpicked : Picked proofs selected)
    (hselected : fees.entries.rows.foldlM (selectForKeyset amount proofs) (inactive, []) =
      .ok (selected, remainingAmounts)) :
    amount.toNat ≤ worth (remainingAmounts.foldl (selectRemainingBy double proofs) selected) := by
  obtain ⟨-, henough, -⟩ := foldlM_selectForKeyset hsorted h.powers hselected
  obtain ⟨entry, hentry, hexact⟩ := h.enough
  have hcovers := henough entry hentry hexact
  dsimp only at hcovers
  rw [Amount.total_nil] at hcovers
  have hadds := h.adds selected remainingAmounts hselected
  rcases (foldl_adds hadds selected).2 with hreaches | hall
  · omega
  · -- all proofs are selected, and they are worth the amount
    have hlast := hpicked.selectRemainingBy double remainingAmounts
    have hsum := hlast.worth_add hnodup
    have hnil : (proofs.filter fun p =>
        p ∉ remainingAmounts.foldl (selectRemainingBy double proofs) selected) = [] :=
      List.filter_eq_nil_iff.mpr fun p hp hnot => of_decide_eq_true hnot (hall p hp)
    rw [hnil, worth_nil] at hsum
    omega

theorem le_worth_chooseProofsBy (h : Suffices double fees amount proofs inactive)
    (hnodup : proofs.Nodup) (hle : amount.toNat ≤ worth proofs)
    (hinactive : Picked proofs inactive) (hsorted : Descending proofs)
    (hchosen : chooseProofsBy double order amount proofs inactive fees = .ok chosen) :
    amount.toNat ≤ worth chosen := by
  rw [chooseProofsBy, Outcome.bind_eq_ok] at hchosen
  obtain ⟨⟨selected, remainingAmounts⟩, hselected, hchosen⟩ := hchosen
  have hpicked : Picked proofs selected := hinactive.selectForKeyset hselected
  have hworth := h.le_worth hsorted hnodup hle hpicked hselected
  dsimp only at hchosen
  by_cases hnone : remainingAmounts = []
  · rw [if_pos hnone] at hchosen
    cases hchosen
    rw [hnone, List.foldl_nil] at hworth
    rw [worth_perm (order.perm selected)]
    exact hworth
  · rw [if_neg hnone, Outcome.bind_eq_ok] at hchosen
    obtain ⟨total, -, hchosen⟩ := hchosen
    split at hchosen
    · exact (selectLeastAmountOver_spec hchosen).2
    · cases hchosen
      rw [worth_perm (order.perm _)]
      exact hworth

/-- The choice is made whenever the proofs are worth the amount. -/
theorem exists_chooseProofsBy (h : Suffices double fees amount proofs inactive)
    (hnodup : proofs.Nodup) (hle : amount.toNat ≤ worth proofs) (hlt : worth proofs < 2 ^ 64)
    (hinactive : Picked proofs inactive) (hsorted : Descending proofs) :
    ∃ chosen, chooseProofsBy double order amount proofs inactive fees = .ok chosen := by
  obtain ⟨⟨selected, remainingAmounts⟩, hselected⟩ :=
    @exists_selectForKeyset proofs amount (inactive, []) _ h.powers
  have hpicked : Picked proofs selected := hinactive.selectForKeyset hselected
  have hworth := h.le_worth hsorted hnodup hle hpicked hselected
  have hall := hpicked.selectRemainingBy double remainingAmounts
  have hsum := hall.worth_add hnodup
  have hvisit := worth_perm (order.perm
    (remainingAmounts.foldl (selectRemainingBy double proofs) selected))
  have hsmall : worth (order.visit
      (remainingAmounts.foldl (selectRemainingBy double proofs) selected)) < 2 ^ 64 := by omega
  have htotal : totalAmount (order.visit
      (remainingAmounts.foldl (selectRemainingBy double proofs) selected)) = .ok ⟨_, hsmall⟩ :=
    totalAmount_eq_ok.mpr rfl
  rw [chooseProofsBy, hselected, Outcome.bind_ok]
  dsimp only
  split_ifs
  · exact ⟨_, rfl⟩
  · rw [htotal, Outcome.bind_ok]
    split
    · have hdescending := worth_perm (sortDescending_perm (order.visit
        (remainingAmounts.foldl (selectRemainingBy double proofs) selected)))
      exact exists_selectLeastAmountOver (by omega) (by omega)
    · exact ⟨_, rfl⟩

/-- What is chosen without fees is worth the amount. -/
theorem le_worth_selectProofs (hnodup : proofs.Nodup)
    (hpower : ∀ p ∈ proofs, ∃ j, p.amount.toNat = 2 ^ j) (hsplits : Splits fees amount)
    (h : selectProofs order feeOrder amount proofs activeKeysetIds fees false = .ok chosen) :
    amount.toNat ≤ worth chosen := by
  by_cases hzero : amount = .zero
  · rw [hzero]
    exact Nat.zero_le _
  · obtain ⟨hle, -, h⟩ := (selectFrom_eq_ok hzero).mp h
    have hperm := sortDescending_perm proofs
    have hsorted := descending_sortDescending proofs
    split at h
    next hearly =>
      rw [h, worth_perm (order.perm _), worth_perm (inactiveProofs_perm _ hperm)]
      exact hearly
    next =>
      obtain ⟨before, hbefore, hlast⟩ := h
      cases hlast
      rw [chooseProofs] at hbefore
      have hsuffices : Suffices doubleI32 fees amount (sortDescending proofs)
          (inactiveProofs activeKeysetIds (sortDescending proofs)) :=
        hsplits.suffices hsorted fun p hp => hpower p (hperm.mem_iff.mp hp)
      refine le_worth_chooseProofsBy hsuffices (hperm.nodup_iff.mpr hnodup) ?_
        (Picked.inactiveProofs activeKeysetIds _) hsorted hbefore
      rw [worth_perm hperm]
      exact hle

/-- No keyset charges a fee. -/
def Free (fees : KeysetFeeAndAmounts) : Prop := ∀ entry ∈ fees.entries.rows, entry.2.fee = 0

theorem Free.getProofsFee (hfree : Free fees) {inputs : List Proof}
    (hknown : ∀ p ∈ inputs, (fees.get p.keysetId).isSome = true) :
    getProofsFee fees.keysets inputs = .ok .zero := by
  apply getProofsFee_free
  · intro p hp
    have hinfo := congrArg Option.isSome (fees.info_keysets p.keysetId)
    rw [Option.isSome_map, Option.isSome_map] at hinfo
    exact hinfo.trans (hknown p hp)
  · intro keyset hkeyset
    obtain ⟨entry, hentry, rfl⟩ := List.mem_map.mp hkeyset
    exact hfree entry hentry

theorem Free.feePpk (hfree : Free fees) {id : Id} (hknown : (fees.get id).isSome = true) :
    (fees.feePpk id).toNat = 0 := by
  obtain ⟨feeAndAmounts, hget⟩ := Option.isSome_iff_exists.mp hknown
  obtain ⟨entry, hentry, rfl⟩ := Option.map_eq_some_iff.mp hget
  rw [KeysetFeeAndAmounts.feePpk, hget, Option.bind_some,
    hfree entry (Table.find?_eq_some.mp hentry).1]
  rfl

/-- As long as no keyset charges a fee and the amount can be split, every result covers it. -/
theorem covers_of_free {new : List Proof} {result : List Proof × Option (Proof × Amount)}
    (hnodup : proofs.Nodup) (hpower : ∀ p ∈ proofs, ∃ k, p.amount.toNat = 2 ^ k)
    (hknown : ∀ p ∈ proofs, (fees.get p.keysetId).isSome = true)
    (hnew : ∀ p ∈ new, (fees.get p.keysetId).isSome = true) (hsplits : Splits fees amount)
    (hfree : Free fees)
    (h : selectExactProofs order feeOrder amount proofs activeKeysetIds fees true = .ok result) :
    Covers fees amount new result := by
  simp only [selectExactProofs, Outcome.bind_eq_ok, selectProofs_eq_ok hnodup] at h
  obtain ⟨_, ⟨chosen, hchosen, -, rfl⟩, hresult⟩ := h
  cases hresult
  have hpicked := picked_selectFrom hchosen
  have hworth := le_worth_selectProofs hnodup hpower hsplits hchosen
  have hchosenKnown : ∀ p ∈ chosen, (fees.get p.keysetId).isSome = true := fun p hp =>
    hknown p (hpicked.mem p hp)
  have hfee := hfree.getProofsFee hchosenKnown
  have hsettled : settled feeOrder amount proofs activeKeysetIds fees chosen = chosen := by
    have hzero : feeOf fees chosen = .zero := by
      rw [feeOf, KeysetFeeAndAmounts.calculateFee, getProofsFee_eq_ok.mp hfee]
      rfl
    rw [settled, hzero]
    exact if_pos hworth
  apply (covers_settled hnodup hpower hknown hchosen).mpr
  rw [hsettled]
  constructor
  · intro _
    exact ⟨.zero, hfee, hworth⟩
  · intro rest p hoffers _
    have hmem : ∀ q ∈ rest ++ [p], q ∈ chosen := fun q hq =>
      (sortAscending_perm chosen).mem_iff.mp (hoffers.sorted ▸ hq)
    constructor
    · exact hfree.feePpk (hchosenKnown p (hmem p (by simp)))
    · apply hfree.getProofsFee
      intro q hq
      rcases List.mem_append.mp hq with hq | hq
      · exact hchosenKnown q (hmem q (List.mem_append_left _ hq))
      · exact hnew q hq

end Chosen

end Selection

end Cdk
