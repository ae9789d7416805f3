import Cdk.Lib.Outcome

/-!
# Procedures that are not undone

A procedure runs on a store and keeps what it has written when it fails later.
So an error says nothing about the store, and what a failed call leaves behind is
what was written before the failing step. A component of the store that all steps
but one keep is changed by a failed call exactly if that step was reached and
changed it.
-/

namespace Lib

/-! ## Failing calls -/

namespace Outcome

variable {ε ε' : Type} {α β : Type}

/-- The call returns an error. -/
def Fails (x : Outcome ε α) : Prop := ∃ e, x = .err e

@[simp] theorem fails_err (e : ε) : (.err e : Outcome ε α).Fails := ⟨e, rfl⟩

@[simp] theorem not_fails_ok (a : α) : ¬ (.ok a : Outcome ε α).Fails := by
  rintro ⟨e, h⟩
  cases h

@[simp] theorem not_fails_panic : ¬ (.panic : Outcome ε α).Fails := by
  rintro ⟨e, h⟩
  cases h

@[simp] theorem fails_ofOption {e : ε} {x : Option α} : (ofOption e x).Fails ↔ x = none := by
  cases x <;> simp [ofOption]

@[simp] theorem not_fails_expect {x : Option α} : ¬ (expect x : Outcome ε α).Fails := by
  cases x <;> simp [expect]

@[simp] theorem fails_mapErr {f : ε → ε'} {x : Outcome ε α} : (x.mapErr f).Fails ↔ x.Fails := by
  cases x <;> simp [mapErr]

/-- A sequence fails where one of its parts fails. -/
theorem fails_bind {x : Outcome ε α} {f : α → Outcome ε β} :
    (x >>= f).Fails ↔ x.Fails ∨ ∃ a, x = .ok a ∧ (f a).Fails := by
  cases x <;> simp

/-- A call that returns a value or an error fails if it returns no value. -/
theorem fails_iff {x : Outcome ε α} (h : x ≠ .panic) : x.Fails ↔ ∀ a, x ≠ .ok a := by
  cases x with
  | ok a => simp
  | err e => simp
  | panic => exact absurd rfl h

theorem forM_ne_panic {γ : Type} {f : γ → Outcome ε Unit} {xs : List γ}
    (h : ∀ x ∈ xs, f x ≠ .panic) : xs.forM f ≠ .panic := by
  induction xs with
  | nil => simp [List.forM]
  | cons x xs ih =>
      rw [List.forM, bind_ne_panic]
      exact ⟨h x List.mem_cons_self, fun _ _ => ih fun x' hx' => h x' (List.mem_cons_of_mem x hx')⟩

end Outcome

/-! ## Procedures -/

/-- A call that runs on a store, and leaves it as written when it fails. -/
def Proc (σ ε α : Type) := σ → Outcome ε α × σ

namespace Proc

variable {σ τ ε α β γ : Type}

instance : Monad (Proc σ ε) where
  pure a := fun s => (.ok a, s)
  bind x f := fun s =>
    match x s with
    | (.ok a, s) => f a s
    | (.err e, s) => (.err e, s)
    | (.panic, s) => (.panic, s)

/-- Run a call that does not touch the store. -/
def lift (x : Outcome ε α) : Proc σ ε α := fun s => (x, s)

/-- Run a call that only reads the store. -/
def read (f : σ → Outcome ε α) : Proc σ ε α := fun s => (f s, s)

def write (f : σ → σ) : Proc σ ε Unit := fun s => (.ok (), f s)

/-- Run a call whose error is only noted. -/
def attempt (x : Proc σ ε α) : Proc σ ε (Option α) := fun s =>
  match x s with
  | (.ok a, s) => (.ok (some a), s)
  | (.err _, s) => (.ok none, s)
  | (.panic, s) => (.panic, s)

/-- Run a call whose errors are others. -/
def mapErr {ε' : Type} (f : ε → ε') (x : Proc σ ε α) : Proc σ ε' α := fun s =>
  ((x s).1.mapErr f, (x s).2)

/-- Run a transaction, which is undone when it fails. -/
def transact (x : Tx σ ε α) : Proc σ ε α := x.commit

variable {x : Proc σ ε α} {f : α → Proc σ ε β} {s s' : σ}

@[simp] theorem lift_run (x : Outcome ε α) (s : σ) : (lift x : Proc σ ε α) s = (x, s) := rfl

@[simp] theorem read_run (f : σ → Outcome ε α) (s : σ) : read f s = (f s, s) := rfl

@[simp] theorem write_run (f : σ → σ) (s : σ) :
    (write f : Proc σ ε Unit) s = (.ok (), f s) := rfl

/-- A sequence continues from where its first part ended. -/
theorem bind_of_ok {a : α} (h : x s = (.ok a, s')) : (x >>= f) s = f a s' := by
  change (match x s with
    | (.ok a, s) => f a s
    | (.err e, s) => (.err e, s)
    | (.panic, s) => (.panic, s)) = _
  rw [h]

theorem bind_of_err {e : ε} (h : x s = (.err e, s')) : (x >>= f) s = (.err e, s') := by
  change (match x s with
    | (.ok a, s) => f a s
    | (.err e, s) => (.err e, s)
    | (.panic, s) => (.panic, s)) = _
  rw [h]

theorem bind_of_panic (h : x s = (.panic, s')) : (x >>= f) s = (.panic, s') := by
  change (match x s with
    | (.ok a, s) => f a s
    | (.err e, s) => (.err e, s)
    | (.panic, s) => (.panic, s)) = _
  rw [h]

theorem bind_ok {b : β} :
    (x >>= f) s = (.ok b, s') ↔ ∃ a s₁, x s = (.ok a, s₁) ∧ f a s₁ = (.ok b, s') := by
  rcases h : x s with ⟨a | e | _, s₁⟩
  · rw [bind_of_ok h]
    constructor
    · intro hf
      exact ⟨a, s₁, rfl, hf⟩
    · rintro ⟨_, _, hx, hf⟩
      cases hx
      exact hf
  · rw [bind_of_err h]
    simp
  · rw [bind_of_panic h]
    simp

/-- A call that does not touch the store is followed by what it returns. -/
theorem lift_bind_ok {y : Outcome ε α} {b : β} :
    (lift y >>= f) s = (.ok b, s') ↔ ∃ a, y = .ok a ∧ f a s = (.ok b, s') := by
  rw [bind_ok]
  simp

theorem lift_bind_of_ok {y : Outcome ε α} {a : α} (h : y = .ok a) : (lift y >>= f) s = f a s := by
  subst h
  rfl

theorem lift_bind_of_err {y : Outcome ε α} {e : ε} (h : y = .err e) :
    (lift y >>= f) s = (.err e, s) := by
  subst h
  rfl

theorem lift_bind_of_panic {y : Outcome ε α} (h : y = .panic) :
    (lift y >>= f) s = (.panic, s) := by
  subst h
  rfl

theorem read_bind_ok {g : σ → Outcome ε α} {b : β} :
    (read g >>= f) s = (.ok b, s') ↔ ∃ a, g s = .ok a ∧ f a s = (.ok b, s') := by
  rw [bind_ok]
  simp

theorem read_bind_of_ok {g : σ → Outcome ε α} {a : α} (h : g s = .ok a) :
    (read g >>= f) s = f a s :=
  bind_of_ok (congrArg (·, s) h)

theorem mapErr_ok {ε' : Type} {g : ε → ε'} {a : α} :
    mapErr g x s = (.ok a, s') ↔ x s = (.ok a, s') := by
  rw [mapErr, Prod.ext_iff, Prod.ext_iff, Outcome.mapErr_eq_ok]

/-- A sequence leaves the store of its first part, or that of the second one behind it. -/
theorem store_bind_cases (x : Proc σ ε α) (f : α → Proc σ ε β) (s : σ) :
    ((x >>= f) s).2 = (x s).2 ∨ ∃ a, ((x >>= f) s).2 = (f a (x s).2).2 := by
  rcases h : x s with ⟨a | e | _, s₁⟩
  · exact .inr ⟨a, by rw [bind_of_ok h]⟩
  · exact .inl (by rw [bind_of_err h])
  · exact .inl (by rw [bind_of_panic h])

/-- A sequence panics where one of its parts does. -/
theorem bind_ne_panic : ((x >>= f) s).1 ≠ .panic ↔
    (x s).1 ≠ .panic ∧ ∀ a s', x s = (.ok a, s') → (f a s').1 ≠ .panic := by
  rcases h : x s with ⟨a | e | _, s₁⟩
  · rw [bind_of_ok h]
    simp
  · rw [bind_of_err h]
    simp
  · rw [bind_of_panic h]
    simp

theorem lift_bind_ne_panic {y : Outcome ε α} : ((lift y >>= f) s).1 ≠ .panic ↔
    y ≠ .panic ∧ ∀ a, y = .ok a → (f a s).1 ≠ .panic := by
  rw [bind_ne_panic, lift_run]
  simp

/-- The call returns no value, and has not changed the store. -/
def Aborts (x : Proc σ ε α) (s : σ) : Prop := (x s).2 = s ∧ ∀ a, (x s).1 ≠ .ok a

theorem Aborts.bind (h : x.Aborts s) : (x >>= f).Aborts s := by
  obtain ⟨hsame, hnone⟩ := h
  rcases hx : x s with ⟨a | e | _, s₁⟩
  · rw [hx] at hnone
    exact absurd rfl (hnone a)
  · rw [hx] at hsame
    rw [Aborts, bind_of_err hx]
    exact ⟨hsame, nofun⟩
  · rw [hx] at hsame
    rw [Aborts, bind_of_panic hx]
    exact ⟨hsame, nofun⟩

/-- A call that does not touch the store may return a value if what follows aborts. -/
theorem aborts_lift_bind {y : Outcome ε α} (h : ∀ a, y = .ok a → (f a).Aborts s) :
    (lift y >>= f).Aborts s := by
  cases hy : y with
  | ok a =>
      rw [Aborts, lift_bind_of_ok rfl]
      exact h a hy
  | err e =>
      rw [Aborts, lift_bind_of_err rfl]
      exact ⟨rfl, nofun⟩
  | panic =>
      rw [Aborts, lift_bind_of_panic rfl]
      exact ⟨rfl, nofun⟩

theorem attempt_store (x : Proc σ ε α) (s : σ) : (attempt x s).2 = (x s).2 := by
  unfold attempt
  rcases x s with ⟨a | e | _, s₁⟩ <;> rfl

/-! ## What a procedure keeps -/

/-- The procedure leaves a component of the store as it is, whether it fails or not. -/
def Keeps (p : σ → τ) (x : Proc σ ε α) : Prop := ∀ s, p (x s).2 = p s

namespace Keeps

variable {p : σ → τ}

/-- With a component everything that is computed of it is kept. -/
theorem comp {υ : Type} (h : Keeps p x) (f : τ → υ) : Keeps (fun s => f (p s)) x :=
  fun s => congrArg f (h s)

theorem pure (a : α) : Keeps p (Pure.pure a : Proc σ ε α) := fun _ => rfl

theorem lift (y : Outcome ε α) : Keeps p (Proc.lift y : Proc σ ε α) := fun _ => rfl

theorem read (f : σ → Outcome ε α) : Keeps p (Proc.read f) := fun _ => rfl

theorem transact {y : Tx σ ε α} (h : ∀ s a s', y s = .ok (a, s') → p s' = p s) :
    Keeps p (Proc.transact y) := by
  intro s
  rcases Tx.commit_cases y s with ⟨a, s', hy, hcommit⟩ | ⟨-, hsame, -⟩
  · rw [Proc.transact, hcommit]
    exact h s a s' hy
  · rw [Proc.transact, hsame]

theorem bind (hx : Keeps p x) (hf : ∀ a, Keeps p (f a)) : Keeps p (x >>= f) := by
  intro s
  have hfirst := hx s
  rcases h : x s with ⟨a | e | _, s₁⟩
  · rw [bind_of_ok h, hf a s₁]
    rwa [h] at hfirst
  · rw [bind_of_err h]
    rwa [h] at hfirst
  · rw [bind_of_panic h]
    rwa [h] at hfirst

/-- Behind calls that keep a component it is as the first call leaves it. -/
theorem after (hf : ∀ a, Keeps p (f a)) (s : σ) : p ((x >>= f) s).2 = p (x s).2 := by
  rcases h : x s with ⟨a | e | _, s₁⟩
  · rw [bind_of_ok h]
    exact hf a s₁
  · rw [bind_of_err h]
  · rw [bind_of_panic h]

end Keeps

/-! ## Failed procedures -/

/-- The call returns an error. -/
def Fails (x : Proc σ ε α) (s : σ) : Prop := (x s).1.Fails

theorem not_fails_pure (a : α) : ¬ (pure a : Proc σ ε α).Fails s := Outcome.not_fails_ok a

theorem fails_bind : (x >>= f).Fails s ↔
    x.Fails s ∨ ∃ a s', x s = (.ok a, s') ∧ (f a).Fails s' := by
  unfold Fails
  rcases h : x s with ⟨a | e | _, s₁⟩
  · rw [bind_of_ok h]
    simp
  · rw [bind_of_err h]
    simp
  · rw [bind_of_panic h]
    simp

theorem fails_lift_bind {y : Outcome ε α} :
    (lift y >>= f).Fails s ↔ y.Fails ∨ ∃ a, y = .ok a ∧ (f a).Fails s := by
  rw [fails_bind, Fails, lift_run]
  simp

/-- A call that does not touch the store and returns a value is followed by the rest. -/
theorem fails_of_lift {y : Outcome ε α} {a : α} (hy : y = .ok a) (h : (f a).Fails s) :
    (lift y >>= f).Fails s :=
  fails_lift_bind.mpr (.inr ⟨a, hy, h⟩)

theorem fails_read_bind {g : σ → Outcome ε α} :
    (read g >>= f).Fails s ↔ (g s).Fails ∨ ∃ a, g s = .ok a ∧ (f a).Fails s := by
  rw [fails_bind, Fails, read_run]
  simp

theorem fails_transact {y : Tx σ ε α} : (transact y).Fails s ↔ ∃ e, y s = .err e := by
  unfold Fails transact Tx.commit
  cases y s with
  | ok r => simp
  | err e => simp
  | panic => simp

/-- A failed call leaves a component as it was. -/
def UndoneOnErr (p : σ → τ) (x : Proc σ ε α) (s : σ) : Prop := x.Fails s → p (x s).2 = p s

/-- If nothing but a mark behind some reading changes the component, an error leaves it as it was
exactly if the mark is not reached, or is followed by no error, or has no effect. -/
theorem undoneOnErr_iff {p : σ → τ} {g : σ → Outcome ε α} {mark : α → σ → σ}
    (hf : ∀ a, Keeps p (f a)) :
    UndoneOnErr p (read g >>= fun a => write (mark a) >>= fun _ => f a) s ↔
      ∀ a, g s = .ok a → ¬ (f a).Fails (mark a s) ∨ p (mark a s) = p s := by
  cases h : g s with
  | ok a =>
      have hread : read g s = (.ok a, s) := congrArg (·, s) h
      have hrun : (read g >>= fun a => write (mark a) >>= fun _ => f a) s = f a (mark a s) :=
        (bind_of_ok hread).trans (bind_of_ok (write_run _ _))
      rw [UndoneOnErr, Fails, hrun, hf a]
      constructor
      · rintro hundone b hb
        cases hb
        exact not_or_of_imp hundone
      · intro hsame hfails
        exact (hsame a rfl).resolve_left (not_not_intro hfails)
  | err e =>
      have hread : read g s = (.err e, s) := congrArg (·, s) h
      rw [UndoneOnErr, bind_of_err hread]
      simp
  | panic =>
      have hread : read g s = (.panic, s) := congrArg (·, s) h
      rw [UndoneOnErr, bind_of_panic hread]
      simp

end Proc

end Lib
