import Cdk.Lib.Runs

/-!
# Simulations

A system is seen through a view of its states as another system: each of its
actions is one of the other system, or leaves the view as it is. Then the view of
a run is the run of the actions that are seen.
-/

namespace Lib

variable {σ τ α β : Type}

/-- Every step from a state with the invariant keeps it, and its view is a step of the other system
or stays as it is. -/
structure Simulates (step : σ → α → σ) (step' : τ → β → τ) (view : σ → τ)
    (seen : α → Option β) (Inv : σ → Prop) : Prop where
  inv : ∀ s a, Inv s → Inv (step s a)
  view_step : ∀ s a, Inv s → view (step s a) = ((seen a).map (step' (view s))).getD (view s)

namespace Simulates

variable {step : σ → α → σ} {step' : τ → β → τ} {view : σ → τ} {seen : α → Option β}
  {Inv : σ → Prop}

/-- The view of a run is the run of what is seen of it. -/
theorem view_run (h : Simulates step step' view seen Inv) {s : σ} (hs : Inv s) (actions : List α) :
    view (run step s actions) = run step' (view s) (actions.filterMap seen) := by
  induction actions generalizing s with
  | nil => rfl
  | cons a rest ih =>
      rw [run_cons, ih (h.inv s a hs), h.view_step s a hs]
      cases hseen : seen a with
      | none => rw [List.filterMap_cons_none hseen]; rfl
      | some b => rw [List.filterMap_cons_some hseen]; rfl

end Simulates

end Lib
