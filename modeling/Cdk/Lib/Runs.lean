import Mathlib.Data.List.Basic

/-!
# Runs of a step function

All choices of a system are in the actions, so a run is a list of actions and
a reachable state is where a run from the initial state ends. Invariants are
proved one step at a time, either for every run or for the runs whose steps
all meet a condition on the state before the step and on the action.
-/

namespace Lib

variable {σ α : Type}

/-- The state after a list of actions. -/
def run (step : σ → α → σ) (s : σ) (actions : List α) : σ := actions.foldl step s

@[simp] theorem run_nil (step : σ → α → σ) (s : σ) : run step s [] = s := rfl

@[simp] theorem run_cons (step : σ → α → σ) (s : σ) (a : α) (rest : List α) :
    run step s (a :: rest) = run step (step s a) rest := rfl

theorem run_append (step : σ → α → σ) (s : σ) (first second : List α) :
    run step s (first ++ second) = run step (run step s first) second := by
  simp [run, List.foldl_append]

/-- An action may be inserted where it changes nothing. -/
theorem run_insert {step : σ → α → σ} {s : σ} {first : List α} {a : α}
    (h : step (run step s first) a = run step s first) (second : List α) :
    run step s (first ++ a :: second) = run step s (first ++ second) := by
  rw [run_append, run_cons, h, ← run_append]

/-- Inserting an action where it changes nothing keeps every state that the run passes. -/
theorem exists_prefix_insert {step : σ → α → σ} {s : σ} {first second before after : List α} {a : α}
    (h : step (run step s first) a = run step s first) (hsplit : first ++ second = before ++ after) :
    ∃ before' after', first ++ a :: second = before' ++ after' ∧
      run step s before' = run step s before := by
  rcases List.append_eq_append_iff.mp hsplit with ⟨middle, rfl, rfl⟩ | ⟨middle, rfl, rfl⟩
  · exact ⟨first ++ a :: middle, after, by simp, run_insert h middle⟩
  · exact ⟨before, middle ++ a :: second, by simp, rfl⟩

/-- Every step of a run meets a condition. -/
def Along (step : σ → α → σ) (C : σ → α → Prop) : σ → List α → Prop
  | _, [] => True
  | s, a :: rest => C s a ∧ Along step C (step s a) rest

theorem along_append {step : σ → α → σ} {C : σ → α → Prop} {s : σ} {first second : List α} :
    Along step C s (first ++ second) ↔
      Along step C s first ∧ Along step C (run step s first) second := by
  induction first generalizing s with
  | nil => simp [Along]
  | cons a rest ih => simp only [List.cons_append, Along, run_cons, ih, and_assoc]

/-- A condition on the actions alone may be added to the condition of a run. -/
theorem along_and {step : σ → α → σ} {C : σ → α → Prop} {P : α → Prop} {s : σ} {actions : List α}
    (h : Along step C s actions) (hP : ∀ a ∈ actions, P a) :
    Along step (fun s a => C s a ∧ P a) s actions := by
  induction actions generalizing s with
  | nil => trivial
  | cons a rest ih =>
      obtain ⟨ha, hrest⟩ := List.forall_mem_cons.mp hP
      exact ⟨⟨h.1, ha⟩, ih h.2 hrest⟩

instance decidableAlong (step : σ → α → σ) (C : σ → α → Prop) [∀ s a, Decidable (C s a)] :
    ∀ (s : σ) (actions : List α), Decidable (Along step C s actions)
  | _, [] => inferInstanceAs (Decidable True)
  | s, a :: rest =>
      have := decidableAlong step C (step s a) rest
      inferInstanceAs (Decidable (C s a ∧ Along step C (step s a) rest))

/-- An invariant of every conditioned step is an invariant of every conditioned run. -/
theorem invariant_along {step : σ → α → σ} {C : σ → α → Prop} {Inv : σ → Prop}
    (hstep : ∀ s a, Inv s → C s a → Inv (step s a)) {s : σ} {actions : List α}
    (hs : Inv s) (h : Along step C s actions) : Inv (run step s actions) := by
  induction actions generalizing s with
  | nil => exact hs
  | cons a rest ih => exact ih (hstep s a hs h.1) h.2

/-- What holds of every conditioned step from an invariant state holds of all steps of a
conditioned run. -/
theorem along_of_invariant {step : σ → α → σ} {C D : σ → α → Prop} {Inv : σ → Prop}
    (hstep : ∀ s a, Inv s → C s a → Inv (step s a)) (hD : ∀ s a, Inv s → C s a → D s a) {s : σ}
    {actions : List α} (hs : Inv s) (h : Along step C s actions) : Along step D s actions := by
  induction actions generalizing s with
  | nil => trivial
  | cons a rest ih => exact ⟨hD s a hs h.1, ih (hstep s a hs h.1) h.2⟩

/-- An invariant of every step is an invariant of every run. -/
theorem invariant_run {step : σ → α → σ} {Inv : σ → Prop}
    (hstep : ∀ s a, Inv s → Inv (step s a)) {s : σ} (hs : Inv s) (actions : List α) :
    Inv (run step s actions) := by
  induction actions generalizing s with
  | nil => exact hs
  | cons a rest ih => exact ih (hstep s a hs)

/-- Where a good state is kept by exactly the steps that meet a condition, a run ends in a good
state exactly when it starts in one and all its steps meet the condition. -/
theorem run_iff_along {step : σ → α → σ} {C : σ → α → Prop} {Inv Good : σ → Prop}
    (hinv : ∀ s a, Inv s → Inv (step s a))
    (hstep : ∀ s a, Inv s → (Good (step s a) ↔ Good s ∧ C s a)) {s : σ} (hs : Inv s)
    (actions : List α) : Good (run step s actions) ↔ Good s ∧ Along step C s actions := by
  induction actions generalizing s with
  | nil => simp [Along]
  | cons a rest ih =>
      rw [run_cons, ih (hinv s a hs), hstep s a hs, and_assoc]
      rfl

end Lib
