/-
What a recursive query collects from a list: the elements that start it, and those
that follow on one collected. As many rounds as there are elements are enough
(`mem_collect_iff`), as each of them adds an element until one adds none.
-/
import Mathlib.Data.List.Basic
import Mathlib.Data.List.Sublists
import Mathlib.Tactic.Common

namespace Closures

variable {α : Type*} (start : α → Bool) (follows : α → α → Bool) (elements : List α)

/-- What is collected in some rounds. -/
def rounds : Nat → List α
  | 0 => []
  | n + 1 => elements.filter fun a => start a || (rounds n).any (follows · a)

/-- What is collected in the end. -/
def collect : List α := rounds start follows elements elements.length

inductive Collected : α → Prop
  | start {a} (mem : a ∈ elements) (starts : start a = true) : Collected a
  | follows {a b} (collected : Collected a) (mem : b ∈ elements) (follows : follows a b = true) : Collected b

variable {start follows elements}

theorem adds_iff {l : List α} {a : α} :
    (start a || l.any (follows · a)) = true ↔ start a = true ∨ ∃ b ∈ l, follows b a = true := by
  rw [Bool.or_eq_true, List.any_eq_true]

theorem rounds_sublist (n : Nat) : (rounds start follows elements n).Sublist (rounds start follows elements (n + 1)) := by
  induction n with
  | zero => exact List.nil_sublist _
  | succ n ih =>
    refine List.monotone_filter_right elements ?_
    intro a ha
    rcases adds_iff.1 ha with hstart | ⟨b, hb, hfollows⟩
    · exact adds_iff.2 (.inl hstart)
    · exact adds_iff.2 (.inr ⟨b, ih.subset hb, hfollows⟩)

/-- A round adds nothing or there are as many elements. -/
theorem rounds_eq_or_lt (n : Nat) :
    rounds start follows elements (n + 1) = rounds start follows elements n ∨
      n < (rounds start follows elements (n + 1)).length := by
  induction n with
  | zero =>
    rcases Nat.eq_zero_or_pos (rounds start follows elements 1).length with hzero | hpos
    · exact .inl (List.eq_nil_of_length_eq_zero hzero)
    · exact .inr hpos
  | succ n ih =>
    by_cases heq : rounds start follows elements (n + 1 + 1) = rounds start follows elements (n + 1)
    · exact .inl heq
    · right
      have hgrown : (rounds start follows elements (n + 1)).length < (rounds start follows elements (n + 1 + 1)).length := by
        refine lt_of_le_of_ne (rounds_sublist (n + 1)).length_le ?_
        intro hlength
        exact heq ((rounds_sublist (n + 1)).eq_of_length hlength).symm
      rcases ih with hsame | hlt
      · refine absurd ?_ heq
        show elements.filter (fun a => start a || (rounds start follows elements (n + 1)).any (follows · a)) = _
        rw [hsame]
        exact hsame
      · omega

theorem rounds_stable : rounds start follows elements (elements.length + 1) = collect start follows elements := by
  rcases rounds_eq_or_lt elements.length with heq | hlt
  · exact heq
  · exact absurd (List.length_filter_le _ _) (Nat.not_le.2 hlt)

/-- **Enough rounds.** -/
theorem mem_collect_iff {a : α} : a ∈ collect start follows elements ↔ Collected start follows elements a := by
  constructor
  · have hrounds : ∀ n b, b ∈ rounds start follows elements n → Collected start follows elements b := by
      intro n
      induction n with
      | zero =>
        intro b hb
        cases hb
      | succ n ih =>
        intro b hb
        obtain ⟨hmem, hb⟩ := List.mem_filter.1 hb
        rcases adds_iff.1 hb with hstart | ⟨c, hc, hfollows⟩
        · exact .start hmem hstart
        · exact .follows (ih c hc) hmem hfollows
    exact hrounds elements.length a
  · intro h
    rw [← rounds_stable]
    induction h with
    | start hmem hstart => exact List.mem_filter.2 ⟨hmem, adds_iff.2 (.inl hstart)⟩
    | follows _ hmem hfollows ih =>
      rw [rounds_stable] at ih
      exact List.mem_filter.2 ⟨hmem, adds_iff.2 (.inr ⟨_, ih, hfollows⟩)⟩

end Closures
