/-
Runs of a machine whose step function is total: an action that is not enabled
leaves the state as it is, so that every list of actions is a run.
-/
import Mathlib.Data.List.Basic
import Mathlib.Tactic.Common

namespace Runs

variable {σ α : Type*} {step : σ → α → σ}

/-- The state after the actions. -/
def run (step : σ → α → σ) (s : σ) (actions : List α) : σ := actions.foldl step s

/-- The condition holds of each action in the state it is taken in. -/
def Along (step : σ → α → σ) (C : σ → α → Prop) : σ → List α → Prop
  | _, [] => True
  | s, a :: actions => C s a ∧ Along step C (step s a) actions

/-- The property holds of the start and of the state after each action. -/
def Always (step : σ → α → σ) (P : σ → Prop) (s : σ) (actions : List α) : Prop :=
  ∀ before, before <+: actions → P (run step s before)

@[simp] theorem run_nil (s : σ) : run step s [] = s := rfl

@[simp] theorem run_cons (s : σ) (a : α) (actions : List α) : run step s (a :: actions) = run step (step s a) actions := rfl

theorem run_append (s : σ) (before after : List α) : run step s (before ++ after) = run step (run step s before) after :=
  List.foldl_append

theorem run_concat (s : σ) (before : List α) (a : α) : run step s (before ++ [a]) = step (run step s before) a := by
  rw [run_append, run_cons, run_nil]

variable {P : σ → Prop} {s : σ} {C : σ → α → Prop}

theorem run_invariant (hstep : ∀ s a, P s → P (step s a)) (h : P s) (actions : List α) :
    P (run step s actions) := by
  induction actions generalizing s with
  | nil => exact h
  | cons a actions ih => exact ih (hstep s a h)

theorem along_invariant (hstep : ∀ s a, P s → C s a → P (step s a)) (h : P s)
    {actions} (halong : Along step C s actions) : P (run step s actions) := by
  induction actions generalizing s with
  | nil => exact h
  | cons a actions ih => exact ih (hstep s a h halong.1) halong.2

theorem along_of_invariant (hstep : ∀ s a, P s → P (step s a)) (hC : ∀ s a, P s → C s a)
    (h : P s) (actions : List α) : Along step C s actions := by
  induction actions generalizing s with
  | nil => trivial
  | cons a actions ih => exact ⟨hC s a h, ih (hstep s a h)⟩

theorem along_and {D : σ → α → Prop} {actions} (hC : Along step C s actions)
    (hD : Along step D s actions) : Along step (fun s a => C s a ∧ D s a) s actions := by
  induction actions generalizing s with
  | nil => trivial
  | cons a actions ih => exact ⟨⟨hC.1, hD.1⟩, ih hC.2 hD.2⟩

theorem always_cons {a : α} {actions} :
    Always step P s (a :: actions) ↔ P s ∧ Always step P (step s a) actions := by
  constructor
  · intro h
    refine ⟨h [] List.nil_prefix, fun before hb => ?_⟩
    exact h (a :: before) (List.cons_prefix_cons.2 ⟨rfl, hb⟩)
  · rintro ⟨h0, h⟩ before hb
    cases before with
    | nil => exact h0
    | cons b before =>
      obtain ⟨hba, hb⟩ := List.cons_prefix_cons.1 hb
      rw [run_cons, hba]
      exact h before hb

/-- **A property a step keeps exactly under a condition holds throughout a run
exactly when every step meets the condition**, also where the step is known to do
so only under an invariant that the condition keeps. -/
theorem always_iff_along_of_invariant {I : σ → Prop}
    (hstep : ∀ s a, I s → P s → (P (step s a) ↔ C s a)) (hI : ∀ s a, I s → P s → C s a → I (step s a)) (hinv : I s)
    (h : P s) (actions : List α) : Always step P s actions ↔ Along step C s actions := by
  induction actions generalizing s with
  | nil =>
    refine ⟨fun _ => trivial, fun _ before hb => ?_⟩
    rw [List.prefix_nil.1 hb]
    exact h
  | cons a actions ih =>
    rw [always_cons, Along]
    constructor
    · rintro ⟨-, hrest⟩
      have hnext : P (step s a) := hrest [] List.nil_prefix
      have hc := (hstep s a hinv h).1 hnext
      exact ⟨hc, (ih (hI s a hinv h hc) hnext).1 hrest⟩
    · rintro ⟨hc, hrest⟩
      exact ⟨h, (ih (hI s a hinv h hc) ((hstep s a hinv h).2 hc)).2 hrest⟩

theorem always_iff_along (hstep : ∀ s a, P s → (P (step s a) ↔ C s a)) (h : P s)
    (actions : List α) : Always step P s actions ↔ Along step C s actions :=
  always_iff_along_of_invariant (I := fun _ => True) (fun s a _ => hstep s a) (fun _ _ _ _ _ => trivial) trivial h actions

end Runs
