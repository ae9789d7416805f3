import Cdk.Lib.Outcome
import Cdk.Lib.Runs
import Mathlib.Order.Defs.Unbundled

/-!
# Calls that keep to a preorder

A preorder on stores says what a call may do to one. Calls that keep to it
compose, a transaction keeps to it as soon as its statements do, since a failed
one leaves the store as it was, and so does a run whose steps do.
-/

namespace Lib

namespace Tx

variable {σ ε ε' α β γ : Type} {R : σ → σ → Prop}

/-- Where a call returns, its store is related to the one it has run on. -/
def KeepsTo (R : σ → σ → Prop) (x : Tx σ ε α) : Prop := ∀ s a s', x s = .ok (a, s') → R s s'

namespace KeepsTo

theorem write {f : σ → σ} (hf : ∀ s, R s (f s)) :
    KeepsTo R (Tx.write f : Tx σ ε Unit) := by
  intro s a s' h
  rw [← write_ok.mp h]
  exact hf s

theorem writeOr {e : ε} {f : σ → Option σ} (hf : ∀ s s', f s = some s' → R s s') :
    KeepsTo R (Tx.writeOr e f) :=
  fun s _ s' h => hf s s' (writeOr_ok.mp h)

theorem mapErr {f : ε → ε'} {x : Tx σ ε α} (hx : KeepsTo R x) : KeepsTo R (x.mapErr f) :=
  fun s a s' h => hx s a s' (mapErr_ok.mp h)

theorem ite {p : Prop} [Decidable p] {x y : Tx σ ε α} (hx : KeepsTo R x) (hy : KeepsTo R y) :
    KeepsTo R (if p then x else y) := by
  split
  · exact hx
  · exact hy

variable [IsPreorder σ R]

theorem of_eq {x : Tx σ ε α} (h : ∀ s a s', x s = .ok (a, s') → s = s') : KeepsTo R x :=
  fun s a s' hx => h s a s' hx ▸ refl_of R s

theorem pure (a : α) : KeepsTo R (Pure.pure a : Tx σ ε α) :=
  of_eq fun _ _ _ h => (pure_ok.mp h).2

theorem fail (e : ε) : KeepsTo R (Tx.fail e : Tx σ ε α) :=
  of_eq fun _ _ _ h => (fail_ok.mp h).elim

theorem read (f : σ → α) : KeepsTo R (Tx.read f : Tx σ ε α) :=
  of_eq fun _ _ _ h => (read_ok.mp h).2

theorem lift (x : Outcome ε α) : KeepsTo R (Tx.lift x) :=
  of_eq fun _ _ _ h => (lift_ok.mp h).2

theorem ensure (p : Bool) (e : ε) : KeepsTo R (Tx.ensure p e : Tx σ ε Unit) :=
  of_eq fun _ _ _ h => (ensure_ok.mp h).2

theorem bind {x : Tx σ ε α} {f : α → Tx σ ε β} (hx : KeepsTo R x)
    (hf : ∀ a, KeepsTo R (f a)) : KeepsTo R (x >>= f) := by
  intro s b s' h
  obtain ⟨a, mid, hfirst, hrest⟩ := bind_ok.mp h
  exact trans_of R (hx s a mid hfirst) (hf a mid b s' hrest)

theorem forM {f : γ → Tx σ ε Unit} (hf : ∀ x, KeepsTo R (f x)) (xs : List γ) :
    KeepsTo R (xs.forM f) := by
  induction xs with
  | nil => exact pure ()
  | cons x xs ih => exact (hf x).bind fun _ => ih

theorem foldlM {f : β → γ → Tx σ ε β} (hf : ∀ b x, KeepsTo R (f b x)) (xs : List γ) (b : β) :
    KeepsTo R (xs.foldlM f b) := by
  induction xs generalizing b with
  | nil => exact pure b
  | cons x xs ih => exact (hf b x).bind fun b' => ih b'

/-- A transaction keeps the store it fails on. -/
theorem commit {x : Tx σ ε α} (hx : KeepsTo R x) (s : σ) : R s (x.commit s).2 := by
  rcases commit_cases x s with ⟨a, s', h, hc⟩ | ⟨-, hc, -⟩
  · rw [hc]
    exact hx s a s' h
  · rw [hc]
    exact refl_of R s

end KeepsTo

end Tx

/-- What a run shows of its states keeps to a preorder if what every step shows does. -/
theorem run_keepsTo {σ τ α : Type} {step : σ → α → σ} {view : σ → τ} {R : τ → τ → Prop}
    [IsPreorder τ R] (hstep : ∀ s a, R (view s) (view (step s a))) (s : σ) (actions : List α) :
    R (view s) (view (run step s actions)) := by
  induction actions generalizing s with
  | nil => exact refl_of R (view s)
  | cons a rest ih => exact trans_of R (hstep s a) (ih (step s a))

end Lib
