/-
A queue that keeps its last elements: pushing at the back and popping at the
front while there are too many leaves the last of everything ever pushed
(`rtake_rtake_append`).
-/
import Mathlib.Data.List.DropRight
import Mathlib.Tactic.Common

namespace BoundedQueue

variable {α : Type*}

/-- Pops at the front while there are more than `n`. -/
def popOver (n : Nat) : List α → List α
  | [] => []
  | a :: l => if n < l.length + 1 then popOver n l else a :: l

variable (n : Nat) (l : List α)

theorem popOver_eq_rtake : popOver n l = l.rtake n := by
  unfold List.rtake
  induction l with
  | nil => rw [List.drop_nil, popOver]
  | cons a l ih =>
    rw [popOver, List.length_cons]
    split
    next h =>
      rw [ih, show l.length + 1 - n = (l.length - n) + 1 by omega, List.drop_succ_cons]
    next h => rw [show l.length + 1 - n = 0 by omega, List.drop_zero]

theorem length_rtake : (l.rtake n).length = min n l.length := by
  unfold List.rtake
  rw [List.length_drop]
  omega

theorem rtake_of_length_le {n : Nat} {l : List α} (h : l.length ≤ n) : l.rtake n = l := by
  unfold List.rtake
  rw [show l.length - n = 0 by omega, List.drop_zero]

/-- What is at the back stays at the back. -/
theorem rtake_append_of_le {n : Nat} {m} (h : n ≤ m.length) : (l ++ m).rtake n = m.rtake n := by
  unfold List.rtake
  rw [List.drop_append, List.length_append, List.drop_eq_nil_of_le (by omega), List.nil_append]
  congr 1
  omega

theorem rtake_append_of_ge {n : Nat} {m} (h : m.length ≤ n) :
    (l ++ m).rtake n = l.rtake (n - m.length) ++ m := by
  unfold List.rtake
  rw [List.drop_append_of_le_length (by rw [List.length_append]; omega), List.length_append]
  congr 2
  omega

/-- **The last of what is kept and what comes is the last of all.** -/
theorem rtake_rtake_append (m : List α) : (l.rtake n ++ m).rtake n = (l ++ m).rtake n := by
  rcases Nat.le_total n m.length with h | h
  · rw [rtake_append_of_le _ h, rtake_append_of_le _ h]
  · rw [rtake_append_of_ge _ h, rtake_append_of_ge _ h]
    congr 1
    unfold List.rtake
    rw [List.drop_drop, List.length_drop]
    congr 1
    omega

theorem rtake_sublist : (l.rtake n).Sublist l := List.drop_sublist ..

theorem mem_of_mem_rtake {n : Nat} {l : List α} {a : α} (h : a ∈ l.rtake n) : a ∈ l := (rtake_sublist n l).subset h

end BoundedQueue
