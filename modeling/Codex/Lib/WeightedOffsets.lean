/-
Lists whose elements take up room, as characters do in an encoding: positions are sums of
what the elements before them take up, and a cut is possible only between two elements
(`splitAt`, `slice`).
-/
import Mathlib.Algebra.Order.Ring.Int
import Mathlib.Tactic.Common

namespace WeightedOffsets

variable {α : Type} (w : α → Nat)

def weight (xs : List α) : Nat := (xs.map w).sum

/-- The parts before and after a position; none within an element. -/
def splitAt : List α → Nat → Option (List α × List α)
  | xs, 0 => some ([], xs)
  | [], _ + 1 => none
  | x :: xs, n + 1 => if w x ≤ n + 1 then (splitAt xs (n + 1 - w x)).map fun parts => (x :: parts.1, parts.2) else none

def slice (xs : List α) (start stop : Nat) : Option (List α) :=
  if start ≤ stop then (splitAt w xs stop).bind fun parts => (splitAt w parts.1 start).map Prod.snd else none

/-- The elements with their positions, from one on. -/
def indexed (start : Nat) : List α → List (Nat × α)
  | [] => []
  | x :: xs => (start, x) :: indexed (start + w x) xs

variable {w}

@[simp] theorem weight_nil : weight w [] = 0 := rfl

theorem weight_cons (x : α) (xs : List α) : weight w (x :: xs) = w x + weight w xs := by
  rfl

theorem weight_append (xs ys : List α) : weight w (xs ++ ys) = weight w xs + weight w ys := by
  rw [weight, List.map_append, List.sum_append]
  rfl

theorem length_le_weight (hw : ∀ x, 0 < w x) (xs : List α) : xs.length ≤ weight w xs := by
  induction xs with
  | nil => exact Nat.le_refl _
  | cons x xs ih =>
    have := hw x
    rw [weight_cons, List.length_cons]
    omega

/-- Longer prefixes take up more room. -/
theorem weight_take_le_iff (hw : ∀ x, 0 < w x) {xs : List α} {i j : Nat} (hi : i ≤ xs.length) :
    weight w (xs.take i) ≤ weight w (xs.take j) ↔ i ≤ j := by
  have hsplit : ∀ {i j : Nat}, i ≤ j → weight w (xs.take j) = weight w (xs.take i) + weight w ((xs.take j).drop i) := by
    intro i j hle
    rw [← weight_append, ← show (xs.take j).take i = xs.take i by rw [List.take_take, Nat.min_eq_left hle],
      List.take_append_drop]
  constructor
  · intro h
    by_contra hlt
    have hpos := length_le_weight hw ((xs.take i).drop j)
    rw [List.length_drop, List.length_take] at hpos
    have := hsplit (i := j) (j := i) (by omega)
    omega
  · intro hle
    rw [hsplit hle]
    exact Nat.le_add_right ..

theorem splitAt_append (hw : ∀ x, 0 < w x) (xs ys : List α) : splitAt w (xs ++ ys) (weight w xs) = some (xs, ys) := by
  induction xs with
  | nil =>
    rw [weight_nil, splitAt]
    rfl
  | cons x xs ih =>
    obtain ⟨n, hn⟩ : ∃ n, weight w (x :: xs) = n + 1 :=
      Nat.exists_eq_succ_of_ne_zero (by have := hw x; rw [weight_cons]; omega)
    have hle : w x ≤ n + 1 ∧ n + 1 - w x = weight w xs := by
      rw [weight_cons] at hn
      omega
    rw [hn, List.cons_append, splitAt, if_pos hle.1, hle.2, ih]
    rfl

/-- **Cuts between elements.** -/
theorem slice_append (hw : ∀ x, 0 < w x) (xs ys zs : List α) :
    slice w (xs ++ ys ++ zs) (weight w xs) (weight w (xs ++ ys)) = some ys := by
  rw [slice, if_pos (by rw [weight_append]; omega), splitAt_append hw, Option.bind_some, splitAt_append hw]
  rfl

/-- Every position below the end is within one element. -/
theorem exists_within {xs} {p : Nat} (h : p < weight w xs) :
    ∃ before x after, xs = before ++ x :: after ∧ weight w before ≤ p ∧ p < weight w before + w x := by
  induction xs generalizing p with
  | nil => exact absurd h (Nat.not_lt_zero p)
  | cons x xs ih =>
    rw [weight_cons] at h
    by_cases hx : p < w x
    · exact ⟨[], x, xs, rfl, Nat.zero_le _, by rwa [weight_nil, Nat.zero_add]⟩
    · obtain ⟨before, y, after, rfl, hle, hlt⟩ := ih (p := p - w x) (by omega)
      refine ⟨x :: before, y, after, rfl, ?_, ?_⟩
      · rw [weight_cons]
        omega
      · rw [weight_cons]
        omega

theorem length_indexed (start : Nat) (xs : List α) : (indexed w start xs).length = xs.length := by
  induction xs generalizing start with
  | nil => rfl
  | cons x xs ih => rw [indexed, List.length_cons, ih, List.length_cons]

theorem indexed_append (start : Nat) (xs ys : List α) :
    indexed w start (xs ++ ys) = indexed w start xs ++ indexed w (start + weight w xs) ys := by
  induction xs generalizing start with
  | nil => rfl
  | cons x xs ih => rw [List.cons_append, indexed, ih, indexed, List.cons_append, weight_cons, Nat.add_assoc]

theorem getElem?_indexed (start : Nat) (xs : List α) (i : Nat) :
    (indexed w start xs)[i]? = xs[i]?.map fun x => (start + weight w (xs.take i), x) := by
  induction xs generalizing start i with
  | nil => rfl
  | cons x xs ih =>
    cases i with
    | zero => rfl
    | succ i =>
      rw [indexed, List.getElem?_cons_succ, ih, List.getElem?_cons_succ, List.take_succ_cons, weight_cons, Nat.add_assoc]

end WeightedOffsets
