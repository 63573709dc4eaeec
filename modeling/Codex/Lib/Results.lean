/-
Computations that stop at the first error: what has come back where the whole has
succeeded, and a loop over a list that keeps an invariant of what it has done so far
(`foldlM_invariant`).
-/
import Mathlib.Data.List.Forall2
import Mathlib.Tactic.Common

namespace Results

variable {ε ε' α β σ : Type}

variable {f : α → Except ε β} {xs : List α}

theorem bind_eq_ok {x} {r : β} : (x >>= f) = .ok r ↔ ∃ a, x = .ok a ∧ f a = .ok r := by
  cases x with
  | error e => exact iff_of_false nofun nofun
  | ok a => exact ⟨fun h => ⟨a, rfl, h⟩, fun ⟨_, ha, h⟩ => by cases ha; exact h⟩

theorem mapError_eq_ok {x : Except ε α} {f : ε → ε'} {a : α} : x.mapError f = .ok a ↔ x = .ok a := by
  cases x with
  | error e => exact iff_of_false nofun nofun
  | ok b => exact ⟨fun h => by cases h; rfl, fun h => by cases h; rfl⟩

theorem mapM_eq_ok {ys} : xs.mapM f = .ok ys ↔ List.Forall₂ (fun x y => f x = .ok y) xs ys := by
  induction xs generalizing ys with
  | nil =>
    rw [List.mapM_nil, List.forall₂_nil_left_iff]
    exact ⟨fun h => by cases h; rfl, fun h => by rw [h]; rfl⟩
  | cons x xs ih =>
    rw [List.mapM_cons, bind_eq_ok, List.forall₂_cons_left_iff]
    constructor
    · rintro ⟨y, hy, h⟩
      obtain ⟨ys', hys, heq⟩ := bind_eq_ok.1 h
      cases heq
      exact ⟨y, ys', hy, ih.1 hys, rfl⟩
    · rintro ⟨y, ys', hy, hys, rfl⟩
      exact ⟨y, hy, bind_eq_ok.2 ⟨ys', ih.2 hys, rfl⟩⟩

theorem exists_mapM (h : ∀ x ∈ xs, ∃ y, f x = .ok y) : ∃ ys, xs.mapM f = .ok ys := by
  induction xs with
  | nil => exact ⟨[], rfl⟩
  | cons x xs ih =>
    obtain ⟨⟨y, hy⟩, hrest⟩ := List.forall_mem_cons.1 h
    obtain ⟨ys, hys⟩ := ih hrest
    exact ⟨y :: ys, mapM_eq_ok.2 (.cons hy (mapM_eq_ok.1 hys))⟩

theorem exists_of_mapM {ys} (h : xs.mapM f = .ok ys) {x : α} (hx : x ∈ xs) : ∃ y ∈ ys, f x = .ok y := by
  induction mapM_eq_ok.1 h with
  | nil => cases hx
  | cons hxy hrest ih =>
    rcases List.mem_cons.1 hx with rfl | hin
    · exact ⟨_, List.mem_cons_self, hxy⟩
    · obtain ⟨y, hy, hfy⟩ := ih (mapM_eq_ok.2 hrest) hin
      exact ⟨y, List.mem_cons_of_mem _ hy, hfy⟩

/-- What holds of the start and of each step's end, with the elements done so far, holds of the end. -/
theorem foldlM_invariant {P : List α → σ → Prop} {f : σ → α → Except ε σ}
    (hstep : ∀ done s a s', P done s → f s a = .ok s' → P (done ++ [a]) s') {done} {s : σ} (h : P done s)
    {rest} {s' : σ} (hfold : rest.foldlM f s = .ok s') : P (done ++ rest) s' := by
  induction rest generalizing done s with
  | nil =>
    cases hfold
    rwa [List.append_nil]
  | cons a rest ih =>
    obtain ⟨s₁, hs₁, hrest⟩ := bind_eq_ok.1 hfold
    have hall := ih (hstep done s a s₁ h hs₁) hrest
    rwa [List.append_assoc] at hall

end Results
