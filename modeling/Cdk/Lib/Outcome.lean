import Mathlib.Data.List.Forall2

/-!
# Results with panics and atomic transactions

A call either returns a value, returns an error, or panics. A transaction is
such a call threading a store; committing one keeps the store it ends with
when it returns a value and keeps the old store otherwise.
-/

namespace Lib

universe u

/-- The ways a call can end. -/
inductive Outcome (ε : Type) (α : Type u) where
  | ok (value : α)
  | err (error : ε)
  | panic
deriving DecidableEq, Repr

namespace Outcome

variable {ε ε' : Type} {α β : Type u}

def bind (x : Outcome ε α) (f : α → Outcome ε β) : Outcome ε β :=
  match x with
  | ok a => f a
  | err e => err e
  | panic => panic

instance : Monad (Outcome ε) where
  pure := ok
  bind := bind

instance : LawfulMonad (Outcome ε) := LawfulMonad.mk' (Outcome ε)
  (by intro _ x; cases x <;> rfl)
  (by intros; rfl)
  (by intro _ _ _ x f g; cases x <;> rfl)

/-- The `?` operator on an absent value. -/
def ofOption (e : ε) : Option α → Outcome ε α
  | some a => ok a
  | none => err e

/-- An assertion that returns an error. -/
def ensure (p : Bool) (e : ε) : Outcome ε Unit :=
  if p then ok () else err e

/-- An operator that panics where no value exists. -/
def expect : Option α → Outcome ε α
  | some a => ok a
  | none => panic

def mapErr (f : ε → ε') : Outcome ε α → Outcome ε' α
  | ok a => ok a
  | err e => err (f e)
  | panic => panic

def getD (x : Outcome ε α) (default : α) : α :=
  match x with
  | ok a => a
  | _ => default

/-- Discard the error of a call but not its panic. -/
def toOption : Outcome ε α → Outcome ε' (Option α)
  | ok a => ok (some a)
  | err _ => ok none
  | panic => panic

@[simp] theorem pure_eq (a : α) : (pure a : Outcome ε α) = ok a := rfl

@[simp] theorem bind_ok (a : α) (f : α → Outcome ε β) : (ok a >>= f) = f a := rfl

@[simp] theorem bind_err (e : ε) (f : α → Outcome ε β) :
    ((err e : Outcome ε α) >>= f) = err e := rfl

@[simp] theorem bind_panic (f : α → Outcome ε β) :
    ((panic : Outcome ε α) >>= f) = panic := rfl

/-- A sequence returns a value exactly when both parts do. -/
theorem bind_eq_ok {x : Outcome ε α} {f : α → Outcome ε β} {b : β} :
    (x >>= f) = ok b ↔ ∃ a, x = ok a ∧ f a = ok b := by
  cases x <;> simp

theorem ofOption_some (e : ε) (a : α) : ofOption e (some a) = ok a := rfl

@[simp] theorem ofOption_eq_ok {e : ε} {x : Option α} {a : α} :
    ofOption e x = ok a ↔ x = some a := by
  cases x <;> simp [ofOption]

@[simp] theorem ensure_eq_ok {p : Bool} {e : ε} {u : Unit} :
    ensure p e = ok u ↔ p = true := by
  cases p <;> simp [ensure]

@[simp] theorem expect_eq_ok {x : Option α} {a : α} :
    (expect x : Outcome ε α) = ok a ↔ x = some a := by
  cases x <;> simp [expect]

@[simp] theorem mapErr_eq_ok {f : ε → ε'} {x : Outcome ε α} {a : α} :
    mapErr f x = ok a ↔ x = ok a := by
  cases x <;> simp [mapErr]

/-- A loop over a list that returns a value did so in every round. -/
theorem forall₂_of_mapM {γ δ : Type} {f : γ → Outcome ε δ} {xs : List γ} {ys : List δ}
    (h : xs.mapM f = ok ys) : List.Forall₂ (fun x y => f x = ok y) xs ys := by
  induction xs generalizing ys with
  | nil =>
      rw [List.mapM_nil, pure_eq, ok.injEq] at h
      exact h ▸ .nil
  | cons x xs ih =>
      simp only [List.mapM_cons, bind_eq_ok, pure_eq, ok.injEq] at h
      obtain ⟨y, hy, ys', hys, rfl⟩ := h
      exact .cons hy (ih hys)

/-- What every round keeps, the loop keeps. -/
theorem map_of_mapM {γ δ κ : Type} {f : γ → Outcome ε δ} {g : δ → κ} {k : γ → κ} {xs : List γ}
    {ys : List δ} (h : xs.mapM f = ok ys) (hkeeps : ∀ x y, f x = ok y → g y = k x) :
    ys.map g = xs.map k := by
  induction xs generalizing ys with
  | nil =>
      rw [List.mapM_nil, pure_eq, ok.injEq] at h
      exact h ▸ rfl
  | cons x xs ih =>
      simp only [List.mapM_cons, bind_eq_ok, pure_eq, ok.injEq] at h
      obtain ⟨y, hy, ys', hys, rfl⟩ := h
      rw [List.map_cons, List.map_cons, hkeeps x y hy, ih hys]

/-- A loop that only checks passes exactly when every round passes. -/
theorem forM_eq_ok {γ : Type} {f : γ → Outcome ε Unit} {xs : List γ} {u : Unit} :
    xs.forM f = ok u ↔ ∀ x ∈ xs, f x = ok () := by
  induction xs with
  | nil => exact ⟨fun _ _ h => (nomatch h), fun _ => rfl⟩
  | cons x xs ih =>
      have hcons : (x :: xs).forM f = (f x >>= fun _ => xs.forM f) := rfl
      rw [hcons, bind_eq_ok]
      simp only [List.forall_mem_cons]
      constructor
      · rintro ⟨_, hx, hxs⟩
        exact ⟨hx, ih.mp hxs⟩
      · rintro ⟨hx, hxs⟩
        exact ⟨(), hx, ih.mpr hxs⟩

/-- Every result of a loop comes from a round. -/
theorem exists_of_mem_mapM {γ δ : Type} {f : γ → Outcome ε δ} {xs : List γ} {ys : List δ} {y : δ}
    (h : xs.mapM f = ok ys) (hy : y ∈ ys) : ∃ x ∈ xs, f x = ok y := by
  have hall := forall₂_of_mapM h
  clear h
  induction hall with
  | nil => cases hy
  | @cons x y' xs ys hxy _ ih =>
      rcases List.mem_cons.mp hy with rfl | hy
      · exact ⟨x, by simp, hxy⟩
      · obtain ⟨x', hx', hf⟩ := ih hy
        exact ⟨x', by simp [hx'], hf⟩

/-- Every round of a loop has its result. -/
theorem exists_mem_of_mapM {γ δ : Type} {f : γ → Outcome ε δ} {xs : List γ} {ys : List δ} {x : γ}
    (h : xs.mapM f = ok ys) (hx : x ∈ xs) : ∃ y ∈ ys, f x = ok y := by
  have hall := forall₂_of_mapM h
  clear h
  induction hall with
  | nil => cases hx
  | @cons x' y xs ys hxy _ ih =>
      rcases List.mem_cons.mp hx with rfl | hx
      · exact ⟨y, by simp, hxy⟩
      · obtain ⟨y', hy', hf⟩ := ih hx
        exact ⟨y', by simp [hy'], hf⟩

/-- A loop that reads what another one has written returns what is read in each round. -/
theorem mapM_map {γ δ κ : Type} {f : γ → δ} {g : δ → Outcome ε κ} {h : γ → κ}
    (hread : ∀ x, g (f x) = ok (h x)) (xs : List γ) : (xs.map f).mapM g = ok (xs.map h) := by
  induction xs with
  | nil => rfl
  | cons x rest ih =>
      rw [List.map_cons, List.mapM_cons, hread, bind_ok, ih]
      rfl

theorem mapM_map_id {γ δ : Type} {f : γ → δ} {g : δ → Outcome ε γ} (hread : ∀ x, g (f x) = ok x)
    (xs : List γ) : (xs.map f).mapM g = ok xs := by
  rw [mapM_map hread, List.map_id']

/-- A loop whose rounds all return a value returns one. -/
theorem exists_mapM {γ δ : Type} {f : γ → Outcome ε δ} {xs : List γ}
    (h : ∀ x ∈ xs, ∃ y, f x = ok y) : ∃ ys, xs.mapM f = ok ys := by
  induction xs with
  | nil => exact ⟨[], rfl⟩
  | cons x xs ih =>
      obtain ⟨y, hy⟩ := h x (by simp)
      obtain ⟨ys, hys⟩ := ih fun x' hx' => h x' (by simp [hx'])
      exact ⟨y :: ys, by simp [List.mapM_cons, hy, hys]⟩

/-! ### Calls that return -/

@[simp] theorem ofOption_ne_panic (e : ε) (x : Option α) : ofOption e x ≠ panic := by
  cases x <;> simp [ofOption]

@[simp] theorem ensure_ne_panic (p : Bool) (e : ε) : ensure p e ≠ panic := by
  cases p <;> simp [ensure]

@[simp] theorem expect_ne_panic {x : Option α} :
    (expect x : Outcome ε α) ≠ panic ↔ x.isSome = true := by
  cases x <;> simp [expect]

@[simp] theorem mapErr_ne_panic {f : ε → ε'} {x : Outcome ε α} :
    mapErr f x ≠ panic ↔ x ≠ panic := by
  cases x <;> simp [mapErr]

@[simp] theorem toOption_ne_panic {x : Outcome ε α} :
    (toOption x : Outcome ε' (Option α)) ≠ panic ↔ x ≠ panic := by
  cases x <;> simp [toOption]

/-- A sequence returns when its first part does and its second part does on every value. -/
theorem bind_ne_panic {x : Outcome ε α} {f : α → Outcome ε β} :
    (x >>= f) ≠ panic ↔ x ≠ panic ∧ ∀ a, x = ok a → f a ≠ panic := by
  cases x <;> simp

/-- A loop whose rounds all return returns. -/
theorem mapM_ne_panic {γ δ : Type} {f : γ → Outcome ε δ} {xs : List γ}
    (h : ∀ x ∈ xs, f x ≠ panic) : xs.mapM f ≠ panic := by
  induction xs with
  | nil => simp
  | cons x xs ih =>
      rw [List.mapM_cons, bind_ne_panic]
      refine ⟨h x List.mem_cons_self, fun y _ => ?_⟩
      rw [bind_ne_panic]
      exact ⟨ih fun x' hx' => h x' (List.mem_cons_of_mem x hx'), fun ys _ => by simp⟩

theorem foldlM_ne_panic {γ δ : Type} {f : δ → γ → Outcome ε δ} {xs : List γ}
    (h : ∀ acc, ∀ x ∈ xs, f acc x ≠ panic) (acc : δ) : xs.foldlM f acc ≠ panic := by
  induction xs generalizing acc with
  | nil => simp
  | cons x xs ih =>
      rw [List.foldlM_cons, bind_ne_panic]
      refine ⟨h acc x List.mem_cons_self, fun acc' _ => ?_⟩
      exact ih (fun acc x' hx' => h acc x' (List.mem_cons_of_mem x hx')) acc'

end Outcome

/-- A call that runs on a store. -/
def Tx (σ ε α : Type) := σ → Outcome ε (α × σ)

namespace Tx

variable {σ ε ε' α β : Type}

instance : Monad (Tx σ ε) where
  pure a := fun s => .ok (a, s)
  bind x f := fun s => x s >>= fun r => f r.1 r.2

def fail (e : ε) : Tx σ ε α := fun _ => .err e

def read (f : σ → α) : Tx σ ε α := fun s => .ok (f s, s)

def write (f : σ → σ) : Tx σ ε Unit := fun s => .ok ((), f s)

/-- Run a call that does not touch the store. -/
def lift (x : Outcome ε α) : Tx σ ε α := fun s => x >>= fun a => .ok (a, s)

def ensure (p : Bool) (e : ε) : Tx σ ε Unit := lift (Outcome.ensure p e)

def mapErr (f : ε → ε') (x : Tx σ ε α) : Tx σ ε' α := fun s => (x s).mapErr f

/-- A write that the store may refuse. -/
def writeOr (e : ε) (f : σ → Option σ) : Tx σ ε Unit := fun s =>
  match f s with
  | some s' => .ok ((), s')
  | none => .err e

/-- Run a transaction to its commit or its roll-back. -/
def commit (x : Tx σ ε α) (s : σ) : Outcome ε α × σ :=
  match x s with
  | .ok (a, s') => (.ok a, s')
  | .err e => (.err e, s)
  | .panic => (.panic, s)

theorem bind_ok {x : Tx σ ε α} {f : α → Tx σ ε β} {s s' : σ} {b : β} :
    (x >>= f) s = .ok (b, s') ↔ ∃ a s₁, x s = .ok (a, s₁) ∧ f a s₁ = .ok (b, s') := by
  change (x s >>= fun r => f r.1 r.2) = .ok (b, s') ↔ _
  rw [Outcome.bind_eq_ok]
  constructor
  · rintro ⟨⟨a, s₁⟩, h₁, h₂⟩
    exact ⟨a, s₁, h₁, h₂⟩
  · rintro ⟨a, s₁, h₁, h₂⟩
    exact ⟨(a, s₁), h₁, h₂⟩

/-- A sequence fails where one of its parts fails. -/
theorem bind_err {x : Tx σ ε α} {f : α → Tx σ ε β} {s : σ} {e : ε} :
    (x >>= f) s = .err e ↔ x s = .err e ∨ ∃ a s₁, x s = .ok (a, s₁) ∧ f a s₁ = .err e := by
  change (x s >>= fun r => f r.1 r.2) = .err e ↔ _
  cases h : x s with
  | ok r =>
      obtain ⟨a, s₁⟩ := r
      simp
  | err e' => simp
  | panic => simp

/-- A sequence continues from where its first part ended. -/
theorem bind_of_ok {x : Tx σ ε α} {f : α → Tx σ ε β} {s s' : σ} {a : α}
    (h : x s = .ok (a, s')) : (x >>= f) s = f a s' := by
  change (x s >>= fun r => f r.1 r.2) = _
  rw [h]
  rfl

@[simp] theorem pure_ok {a b : α} {s s' : σ} :
    (pure a : Tx σ ε α) s = .ok (b, s') ↔ a = b ∧ s = s' := by
  change Outcome.ok (a, s) = .ok (b, s') ↔ _
  simp

@[simp] theorem fail_ok {e : ε} {b : α} {s s' : σ} :
    (fail e : Tx σ ε α) s = .ok (b, s') ↔ False := by
  simp [fail]

@[simp] theorem read_ok {f : σ → α} {b : α} {s s' : σ} :
    (read f : Tx σ ε α) s = .ok (b, s') ↔ f s = b ∧ s = s' := by
  simp [read]

@[simp] theorem write_ok {f : σ → σ} {u : Unit} {s s' : σ} :
    (write f : Tx σ ε Unit) s = .ok (u, s') ↔ f s = s' := by
  simp [write]

@[simp] theorem lift_ok {x : Outcome ε α} {b : α} {s s' : σ} :
    (lift x : Tx σ ε α) s = .ok (b, s') ↔ x = .ok b ∧ s = s' := by
  cases x <;> simp [lift]

theorem lift_err {x : Outcome ε α} {s : σ} {e : ε} :
    (lift x : Tx σ ε α) s = .err e ↔ x = .err e := by
  cases x <;> simp [lift]

@[simp] theorem ensure_ok {p : Bool} {e : ε} {u : Unit} {s s' : σ} :
    (ensure p e : Tx σ ε Unit) s = .ok (u, s') ↔ p = true ∧ s = s' := by
  simp [ensure]

@[simp] theorem mapErr_ok {f : ε → ε'} {x : Tx σ ε α} {b : α} {s s' : σ} :
    (mapErr f x) s = .ok (b, s') ↔ x s = .ok (b, s') := by
  simp [mapErr]

@[simp] theorem writeOr_ok {e : ε} {f : σ → Option σ} {u : Unit} {s s' : σ} :
    (writeOr e f : Tx σ ε Unit) s = .ok (u, s') ↔ f s = some s' := by
  cases h : f s <;> simp [writeOr, h]

theorem ite_ok {p : Prop} [Decidable p] {x y : Tx σ ε α} {b : α} {s s' : σ} :
    (if p then x else y) s = .ok (b, s') ↔
      (p ∧ x s = .ok (b, s')) ∨ (¬ p ∧ y s = .ok (b, s')) := by
  by_cases h : p <;> simp [h]

/-! ### Calls that return no error -/

/-- A call that returns no error on a store; it may panic. -/
def NoErr (x : Tx σ ε α) (s : σ) : Prop := ∀ e, x s ≠ .err e

namespace NoErr

variable {s : σ}

theorem of_ok {x : Tx σ ε α} {r : α × σ} (h : x s = .ok r) : NoErr x s := by
  intro e he
  rw [h] at he
  cases he

theorem bind {x : Tx σ ε α} {f : α → Tx σ ε β} (hx : NoErr x s)
    (hf : ∀ a s', x s = .ok (a, s') → NoErr (f a) s') : NoErr (x >>= f) s := by
  intro e he
  rcases bind_err.mp he with he | ⟨a, s', ha, he⟩
  · exact hx e he
  · exact hf a s' ha e he

theorem pure (a : α) : NoErr (Pure.pure a : Tx σ ε α) s := of_ok rfl

theorem read (f : σ → α) : NoErr (Tx.read f : Tx σ ε α) s := of_ok rfl

theorem write (f : σ → σ) : NoErr (Tx.write f : Tx σ ε Unit) s := of_ok rfl

theorem lift {x : Outcome ε α} (h : ∀ e, x ≠ .err e) : NoErr (Tx.lift x) s := by
  intro e he
  cases hx : x with
  | ok a =>
      rw [hx] at he
      cases he
  | err e' => exact h e' hx
  | panic =>
      rw [hx] at he
      cases he

theorem ensure {p : Bool} {e : ε} (h : p = true) : NoErr (Tx.ensure p e : Tx σ ε Unit) s :=
  of_ok (ensure_ok (u := ()).mpr ⟨h, rfl⟩)

theorem mapErr {f : ε → ε'} {x : Tx σ ε α} (h : NoErr x s) : NoErr (x.mapErr f) s := by
  intro e he
  unfold Tx.mapErr at he
  cases hx : x s with
  | ok r =>
      rw [hx] at he
      cases he
  | err e' => exact h e' hx
  | panic =>
      rw [hx] at he
      cases he

end NoErr

/-! ### Calls that return -/

/-- A call that does not panic on any store. -/
def Returns (x : Tx σ ε α) : Prop := ∀ s, x s ≠ .panic

namespace Returns

theorem bind {x : Tx σ ε α} {f : α → Tx σ ε β} (hx : Returns x) (hf : ∀ a, Returns (f a)) :
    Returns (x >>= f) := by
  intro s
  change (x s >>= fun r => f r.1 r.2) ≠ .panic
  exact Outcome.bind_ne_panic.mpr ⟨hx s, fun r _ => hf r.1 r.2⟩

theorem fail (e : ε) : Returns (Tx.fail e : Tx σ ε α) := fun _ => nofun

theorem read (f : σ → α) : Returns (Tx.read f : Tx σ ε α) := fun _ => nofun

theorem write (f : σ → σ) : Returns (Tx.write f : Tx σ ε Unit) := fun _ => nofun

theorem writeOr (e : ε) (f : σ → Option σ) : Returns (Tx.writeOr e f) := by
  intro s
  unfold Tx.writeOr
  split <;> exact nofun

theorem ensure (p : Bool) (e : ε) : Returns (Tx.ensure p e : Tx σ ε Unit) :=
  fun _ => Outcome.bind_ne_panic.mpr ⟨Outcome.ensure_ne_panic p e, fun _ _ => nofun⟩

theorem mapErr {f : ε → ε'} {x : Tx σ ε α} (h : Returns x) : Returns (x.mapErr f) :=
  fun s => Outcome.mapErr_ne_panic.mpr (h s)

theorem forM {γ : Type} {f : γ → Tx σ ε Unit} (h : ∀ x, Returns (f x)) (xs : List γ) :
    Returns (xs.forM f) := by
  induction xs with
  | nil => exact fun _ => nofun
  | cons x xs ih => exact (h x).bind fun _ => ih

end Returns

/-- A committed transaction either ended with a value and its store, or left the store alone. -/
theorem commit_cases (x : Tx σ ε α) (s : σ) :
    (∃ a s', x s = .ok (a, s') ∧ commit x s = (.ok a, s')) ∨
      ((∀ r, x s ≠ .ok r) ∧ (commit x s).2 = s ∧ ∀ a, (commit x s).1 ≠ .ok a) := by
  cases h : x s with
  | ok r => exact .inl ⟨r.1, r.2, rfl, by simp [commit, h]⟩
  | err e => exact .inr ⟨by simp, by simp [commit, h], by simp [commit, h]⟩
  | panic => exact .inr ⟨by simp, by simp [commit, h], by simp [commit, h]⟩

theorem commit_eq_ok {x : Tx σ ε α} {s s' : σ} {a : α} :
    commit x s = (.ok a, s') ↔ x s = .ok (a, s') := by
  unfold commit
  cases x s <;> simp [Prod.ext_iff]

/-- What a committed transaction preserves is what its successful runs preserve. -/
theorem commit_preserves {P : σ → Prop} {x : Tx σ ε α} {s : σ} (hs : P s)
    (hx : ∀ a s', x s = .ok (a, s') → P s') : P (commit x s).2 := by
  rcases commit_cases x s with ⟨a, s', h, hc⟩ | ⟨_, hc, _⟩
  · rw [hc]
    exact hx a s' h
  · rw [hc]
    exact hs

section Loops

variable {γ : Type} {f : γ → Tx σ ε Unit} {xs : List γ} {s s' : σ}

theorem forM_nil_ok : ([] : List γ).forM f s = .ok ((), s') ↔ s = s' := by
  change (pure () : Tx σ ε Unit) s = .ok ((), s') ↔ _
  simp

theorem forM_cons_ok {x : γ} :
    (x :: xs).forM f s = .ok ((), s') ↔
      ∃ s₁, f x s = .ok ((), s₁) ∧ xs.forM f s₁ = .ok ((), s') := by
  change (f x >>= fun _ => xs.forM f) s = .ok ((), s') ↔ _
  rw [bind_ok]
  constructor
  · rintro ⟨_, s₁, h₁, h₂⟩
    exact ⟨s₁, h₁, h₂⟩
  · rintro ⟨s₁, h₁, h₂⟩
    exact ⟨(), s₁, h₁, h₂⟩

/-- What a loop of transactions preserves is what one round preserves. -/
theorem forM_preserves {P : σ → Prop} (hf : ∀ x s s', P s → f x s = .ok ((), s') → P s')
    (hs : P s) (h : xs.forM f s = .ok ((), s')) : P s' := by
  induction xs generalizing s with
  | nil => exact forM_nil_ok.mp h ▸ hs
  | cons x xs ih =>
      obtain ⟨s₁, h₁, h₂⟩ := forM_cons_ok.mp h
      exact ih (hf x s s₁ hs h₁) h₂

/-- A loop is the same for bodies that are the same on its elements. -/
theorem forM_congr {g : γ → Tx σ ε Unit} (h : ∀ x ∈ xs, f x = g x) : xs.forM f = xs.forM g := by
  induction xs with
  | nil => rfl
  | cons x xs ih =>
      change (f x >>= fun _ => xs.forM f) = (g x >>= fun _ => xs.forM g)
      rw [h x List.mem_cons_self, ih fun y hy => h y (List.mem_cons_of_mem x hy)]

/-- A loop that returns a value did so in every round. -/
theorem exists_round_of_forM {x : γ} (h : xs.forM f s = .ok ((), s')) (hx : x ∈ xs) :
    ∃ s₁ s₂, f x s₁ = .ok ((), s₂) := by
  induction xs generalizing s with
  | nil => cases hx
  | cons y ys ih =>
      obtain ⟨s₁, h₁, h₂⟩ := forM_cons_ok.mp h
      rcases List.mem_cons.mp hx with rfl | hx
      · exact ⟨s, s₁, h₁⟩
      · exact ih h₂ hx

end Loops

end Tx

end Lib
