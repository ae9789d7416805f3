import Cdk.Lib.Outcome
import Mathlib.Data.List.Basic
import Mathlib.Algebra.BigOperators.Group.List.Basic
import Mathlib.Algebra.Order.BigOperators.Group.List
import Mathlib.Tactic.Ring

/-!
# Amounts

An amount is a `u64`. The checked operations return nothing on overflow, the
plain operators panic there, and a sum is checked after every addition.
-/

namespace Cdk

/-- An unsigned 64-bit amount of some unit. -/
structure Amount where
  toNat : Nat
  isLt : toNat < 2 ^ 64
deriving DecidableEq, Repr

namespace Amount

theorem ext_toNat {a b : Amount} (h : a.toNat = b.toNat) : a = b := by
  cases a
  cases b
  cases h
  rfl

def ofNat? (n : Nat) : Option Amount := if h : n < 2 ^ 64 then some ⟨n, h⟩ else none

theorem ofNat?_eq_some {n : Nat} {a : Amount} : ofNat? n = some a ↔ a.toNat = n := by
  unfold ofNat?
  split
  next h =>
    constructor
    · intro ha
      cases ha
      rfl
    · intro ha
      exact congrArg some (ext_toNat ha.symm)
  next h =>
    constructor
    · intro ha
      cases ha
    · intro ha
      exact absurd (ha ▸ a.isLt) h

def zero : Amount := ⟨0, by decide⟩

def one : Amount := ⟨1, by decide⟩

/-- A literal, which wraps like one of a machine type. -/
instance (n : Nat) : OfNat Amount n := ⟨⟨n % 2 ^ 64, Nat.mod_lt n (by decide)⟩⟩

instance : Inhabited Amount := ⟨zero⟩

instance : LE Amount := ⟨fun a b => a.toNat ≤ b.toNat⟩

instance : LT Amount := ⟨fun a b => a.toNat < b.toNat⟩

instance (a b : Amount) : Decidable (a ≤ b) := inferInstanceAs (Decidable (a.toNat ≤ b.toNat))

instance (a b : Amount) : Decidable (a < b) := inferInstanceAs (Decidable (a.toNat < b.toNat))

theorem le_def {a b : Amount} : a ≤ b ↔ a.toNat ≤ b.toNat := Iff.rfl

/-- `Amount::checked_add`. -/
def checkedAdd (a b : Amount) : Option Amount := ofNat? (a.toNat + b.toNat)

/-- `Amount::checked_sub`. -/
def checkedSub (a b : Amount) : Option Amount :=
  if b.toNat ≤ a.toNat then ofNat? (a.toNat - b.toNat) else none

theorem checkedAdd_eq_some {a b c : Amount} :
    a.checkedAdd b = some c ↔ c.toNat = a.toNat + b.toNat := ofNat?_eq_some

theorem checkedSub_eq_some {a b c : Amount} :
    a.checkedSub b = some c ↔ c.toNat + b.toNat = a.toNat := by
  unfold checkedSub
  split
  next h =>
    rw [ofNat?_eq_some]
    omega
  next h =>
    constructor
    · intro hc
      cases hc
    · intro hc
      omega

theorem checkedAdd_eq_none {a b : Amount} :
    a.checkedAdd b = none ↔ 2 ^ 64 ≤ a.toNat + b.toNat := by
  rw [checkedAdd, ofNat?]
  split
  next hlt => exact iff_of_false (Option.some_ne_none _) (Nat.not_le_of_lt hlt)
  next hlt => exact iff_of_true rfl (Nat.le_of_not_lt hlt)

theorem checkedSub_eq_none {a b : Amount} : a.checkedSub b = none ↔ a.toNat < b.toNat := by
  constructor
  · intro h
    by_contra hle
    have hsome : a.checkedSub b = some ⟨a.toNat - b.toNat, (Nat.sub_le _ _).trans_lt a.isLt⟩ :=
      checkedSub_eq_some.mpr (Nat.sub_add_cancel (Nat.le_of_not_lt hle))
    cases h.symm.trans hsome
  · intro h
    exact if_neg (Nat.not_le_of_lt h)

/-- The operator `+`, which panics on overflow. -/
def add {ε : Type} (a b : Amount) : Lib.Outcome ε Amount := .expect (a.checkedAdd b)

/-- The operator `-`, which panics on underflow. -/
def sub {ε : Type} (a b : Amount) : Lib.Outcome ε Amount := .expect (a.checkedSub b)

/-- `Amount::try_sum`: the sum with an overflow check after every addition. -/
def trySum (amounts : List Amount) : Option Amount := amounts.foldlM checkedAdd zero

/-- The sum of a list of amounts, unbounded. -/
def total (amounts : List Amount) : Nat := (amounts.map toNat).sum

@[simp] theorem total_nil : total [] = 0 := rfl

@[simp] theorem total_cons (a : Amount) (rest : List Amount) :
    total (a :: rest) = a.toNat + total rest := by
  simp [total]

theorem total_append (as bs : List Amount) : total (as ++ bs) = total as + total bs := by
  simp [total]

/-- The order of amounts does not matter for their total. -/
theorem total_perm {as bs : List Amount} (h : as.Perm bs) : total as = total bs :=
  (h.map toNat).sum_eq

theorem total_le_of_sublist {as bs : List Amount} (h : as.Sublist bs) : total as ≤ total bs :=
  (h.map toNat).sum_le_sum fun _ _ => Nat.zero_le _

private theorem foldlM_checkedAdd {amounts : List Amount} {start sum : Amount}
    (h : amounts.foldlM checkedAdd start = some sum) :
    sum.toNat = start.toNat + total amounts := by
  induction amounts generalizing start with
  | nil =>
      cases h
      simp
  | cons a rest ih =>
      rw [List.foldlM_cons] at h
      obtain ⟨next, hnext, hrest⟩ := Option.bind_eq_some_iff.mp h
      rw [ih hrest, checkedAdd_eq_some.mp hnext, total_cons]
      omega

/-- A checked sum that succeeds is the sum. -/
theorem trySum_eq_total {amounts : List Amount} {sum : Amount} (h : trySum amounts = some sum) :
    sum.toNat = total amounts := by
  have := foldlM_checkedAdd h
  simpa [zero] using this

private theorem exists_foldlM_checkedAdd {amounts : List Amount} {start : Amount}
    (h : start.toNat + total amounts < 2 ^ 64) :
    ∃ sum, amounts.foldlM checkedAdd start = some sum := by
  induction amounts generalizing start with
  | nil => exact ⟨start, rfl⟩
  | cons a rest ih =>
      rw [total_cons] at h
      let next : Amount := ⟨start.toNat + a.toNat, by omega⟩
      have hnext : start.checkedAdd a = some next := checkedAdd_eq_some.mpr rfl
      have hrest : next.toNat + total rest < 2 ^ 64 := by
        change start.toNat + a.toNat + total rest < 2 ^ 64
        omega
      obtain ⟨sum, hsum⟩ := ih hrest
      exact ⟨sum, by rw [List.foldlM_cons, hnext, Option.bind_eq_bind, Option.bind_some, hsum]⟩

/-- A checked sum succeeds exactly where the sum is an amount. -/
theorem trySum_eq_some {amounts : List Amount} {sum : Amount} :
    trySum amounts = some sum ↔ sum.toNat = total amounts := by
  constructor
  · exact trySum_eq_total
  · intro h
    have hlt : zero.toNat + total amounts < 2 ^ 64 := by
      rw [← h]
      simpa [zero] using sum.isLt
    obtain ⟨sum', hsum⟩ := exists_foldlM_checkedAdd hlt
    rw [trySum, hsum, ext_toNat ((trySum_eq_total hsum).trans h.symm)]

/-- `Amount::to_i64`: the value of a signed column, absent beyond `i64::MAX`. -/
def toI64 (a : Amount) : Option Nat := if a.toNat < 2 ^ 63 then some a.toNat else none

/-- One round of `Amount::split`. -/
def splitStep (acc : List Amount × Nat) (amount : Amount) : List Amount × Nat :=
  (if amount.toNat ≤ acc.2 then acc.1 ++ [amount] else acc.1, acc.2 % amount.toNat)

/-- `Amount::split`: greedy parts from the largest denomination down. The remainder by a
denomination of zero panics. -/
def split {ε : Type} (a : Amount) (denominations : List Amount) : Lib.Outcome ε (List Amount) :=
  if denominations.any (fun d => d.toNat = 0) then .panic
  else .ok (denominations.reverse.foldl splitStep ([], a.toNat)).1

private theorem foldl_splitStep_le (ds : List Amount) (acc : List Amount) (left : Nat)
    (hpos : ∀ d ∈ ds, 0 < d.toNat) :
    total (ds.foldl splitStep (acc, left)).1 ≤ total acc + left := by
  induction ds generalizing acc left with
  | nil => simp
  | cons d ds ih =>
      have hd := hpos d (by simp)
      rw [List.foldl_cons]
      apply (ih _ _ fun x hx => hpos x (by simp [hx])).trans
      dsimp only
      split
      next h =>
        have hmod : left % d.toNat + d.toNat ≤ left := by
          have := Nat.div_add_mod left d.toNat
          have hq : 1 ≤ left / d.toNat := (Nat.one_le_div_iff hd).mpr h
          have := Nat.mul_le_mul_left d.toNat hq
          omega
        simp only [total, List.map_append, List.sum_append, List.map_cons, List.map_nil,
          List.sum_cons, List.sum_nil]
        omega
      next h =>
        have := Nat.mod_le left d.toNat
        omega

/-- The parts of a split never exceed the amount that was split. -/
theorem total_split_le {ε : Type} {a : Amount} {denominations parts : List Amount}
    (h : (a.split denominations : Lib.Outcome ε _) = .ok parts) : total parts ≤ a.toNat := by
  unfold split at h
  split at h
  next => cases h
  next hany =>
    cases h
    refine (foldl_splitStep_le _ [] a.toNat ?_).trans (by simp)
    intro d hd
    have hz : ¬ d.toNat = 0 := by
      intro h0
      exact hany (List.any_eq_true.mpr ⟨d, List.mem_reverse.mp hd, by simpa using h0⟩)
    omega

end Amount

end Cdk
