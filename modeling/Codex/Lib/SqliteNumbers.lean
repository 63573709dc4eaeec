/-
Numbers in a column of SQLite. The sum of two integers is an integer as long as 64
bits hold it and else a floating-point number, and that is a sum of such numbers
from then on. Adding up integers that are not negative stays with integers as
long as the whole sum fits (`sum_eq_integer`).
-/
import Mathlib.Tactic.Common
import Mathlib.Algebra.Order.Ring.Int
import Mathlib.Algebra.Order.BigOperators.Group.List

namespace SqliteNumbers

/-- Floating-point numbers. -/
structure Reals (R : Type*) where
  ofInt : Int → R
  add : R → R → R
  /-- The number is at least the integer. -/
  atLeast : R → Int → Bool

inductive Number (R : Type*) where
  | integer (n : Int64)
  | real (r : R)
  deriving DecidableEq, Repr

variable {R : Type*} (reals : Reals R)

/-- Held by 64 bits. -/
def Fits (n : Int) : Prop := -2 ^ 63 ≤ n ∧ n < 2 ^ 63

instance (n : Int) : Decidable (Fits n) := inferInstanceAs (Decidable (_ ∧ _))

namespace Number

/-- `number + ?`, bound to an integer -/
def add : Number R → Int64 → Number R
  | integer a, b => if Fits (a.toInt + b.toInt) then integer (a + b) else real (reals.add (reals.ofInt a.toInt) (reals.ofInt b.toInt))
  | real r, b => real (reals.add r (reals.ofInt b.toInt))

/-- `number >= ?`, bound to an integer -/
def atLeast : Number R → Int64 → Bool
  | integer a, b => b ≤ a
  | real r, b => reals.atLeast r b.toInt

@[simp] theorem integer_atLeast (a b : Int64) : (integer a).atLeast reals b = decide (b ≤ a) := rfl

/-- The sum of integers that are held is what it should be. -/
theorem add_of_fits {a b : Int64} (h : Fits (a.toInt + b.toInt)) :
    (integer a).add reals b = integer (a + b) ∧ (a + b).toInt = a.toInt + b.toInt := by
  refine ⟨if_pos h, ?_⟩
  rw [Int64.toInt_add]
  exact Int.bmod_eq_of_le h.1 h.2

end Number

theorem sum_eq_integer {start : Int64} {deltas : List Int64} (h : ∀ delta ∈ deltas, 0 ≤ delta.toInt)
    (hfit : start.toInt + (deltas.map Int64.toInt).sum < 2 ^ 63) :
    ∃ n, deltas.foldl (Number.add reals) (.integer start) = .integer n ∧
      n.toInt = start.toInt + (deltas.map Int64.toInt).sum := by
  induction deltas generalizing start with
  | nil => exact ⟨start, rfl, (Int.add_zero _).symm⟩
  | cons delta deltas ih =>
    obtain ⟨hdelta, hrest⟩ := List.forall_mem_cons.1 h
    rw [List.map_cons, List.sum_cons, ← Int.add_assoc] at hfit ⊢
    have hpos : 0 ≤ (deltas.map Int64.toInt).sum := by
      refine List.sum_nonneg fun n hn => ?_
      obtain ⟨d, hd, rfl⟩ := List.mem_map.1 hn
      exact hrest d hd
    have hstart := start.le_toInt
    obtain ⟨hadd, hvalue⟩ := @Number.add_of_fits R reals start delta ⟨by omega, by omega⟩
    rw [List.foldl_cons, hadd]
    rw [← hvalue] at hfit ⊢
    exact ih hrest hfit

/-- The double next to an integer, the even one of two. -/
def toDouble (n : Int) : Int :=
  let unit := 2 ^ (n.natAbs.log2 + 1 - 53)
  let quotient := n.natAbs / unit
  let remainder := n.natAbs % unit
  let rounded := if 2 * remainder < unit ∨ 2 * remainder = unit ∧ quotient % 2 = 0 then quotient else quotient + 1
  n.sign * (rounded * unit : Nat)

/-- The doubles that are whole numbers. -/
def doubles : Reals Int where
  ofInt := toDouble
  add a b := toDouble (a + b)
  atLeast a b := b ≤ a

example : (Number.integer Int64.maxValue).add doubles Int64.maxValue = .real (2 ^ 64) := by decide

end SqliteNumbers
