/-
Lists that are written at their end: one list is another with more elements, where
only the last of its elements may have changed, by a relation. What a step does is one of
three things (nothing, `append`, `setLast`), and the relation of a run is the relation of
the steps when that of the elements is transitive (`trans`).
-/
import Mathlib.Data.List.Basic

variable {α : Type*} {R : α → α → Prop}

/-- `ys` is `xs` but for the last element of `xs`, for which it may have an `R`-later one, and elements behind it. -/
inductive LastGrows (R : α → α → Prop) : List α → List α → Prop where
  | nil (ys : List α) : LastGrows R [] ys
  | last {x y : α} (ys : List α) (h : R x y) : LastGrows R [x] (y :: ys)
  | cons (x : α) {xs ys : List α} (h : LastGrows R xs ys) : LastGrows R (x :: xs) (x :: ys)

namespace LastGrows

variable {xs ys zs : List α}

theorem append (R : α → α → Prop) (xs ys : List α) : LastGrows R xs (xs ++ ys) := by
  induction xs with
  | nil => exact nil ys
  | cons x xs ih => exact cons x ih

theorem refl (R : α → α → Prop) (xs : List α) : LastGrows R xs xs := by
  simpa using append R xs []

theorem setLast {x y : α} (h : R x y) (hlast : xs.getLast? = some x) : LastGrows R xs (xs.dropLast ++ [y]) := by
  obtain ⟨front, rfl⟩ := List.getLast?_eq_some_iff.1 hlast
  rw [List.dropLast_concat]
  clear hlast
  induction front with
  | nil => exact last [] h
  | cons z front ih => exact cons z ih

theorem eq_nil (h : LastGrows R xs []) : xs = [] := by
  cases h
  rfl

theorem trans (hR : ∀ {x y z}, R x y → R y z → R x z) (h : LastGrows R xs ys) (h' : LastGrows R ys zs) : LastGrows R xs zs := by
  induction h generalizing zs with
  | nil => exact nil zs
  | last ys hxy =>
    cases h' with
    | last zs hyz => exact last zs (hR hxy hyz)
    | cons _ _ => exact last _ hxy
  | cons x h ih =>
    cases h' with
    | last zs hxz =>
      rw [eq_nil h]
      exact last zs hxz
    | cons _ h' => exact cons x (ih h')

/-- The relation in full: the same front, a later last element. -/
theorem iff_exists (hR : ∀ x, R x x) :
    LastGrows R xs ys ↔ xs = [] ∨ ∃ front x y rest, xs = front ++ [x] ∧ ys = front ++ y :: rest ∧ R x y := by
  constructor
  · intro h
    induction h with
    | nil => exact .inl rfl
    | last ys h => exact .inr ⟨[], _, _, ys, rfl, rfl, h⟩
    | @cons x xs ys h ih =>
      refine .inr ?_
      obtain rfl | ⟨front, w, y, rest, rfl, rfl, hwy⟩ := ih
      · exact ⟨[], x, x, ys, rfl, rfl, hR x⟩
      · exact ⟨x :: front, w, y, rest, rfl, rfl, hwy⟩
  · rintro (rfl | ⟨front, x, y, rest, rfl, rfl, hxy⟩)
    · exact nil ys
    · induction front with
      | nil => exact last rest hxy
      | cons z front ih => exact cons z ih

end LastGrows
