/-
Searching a growing list for a literal. What comes later does not move the
first occurrence (`find_append_of_some`), and as long as there is none, all but
the longest end that could still begin one can be let go (`find_append_of_none`,
`held_append_of_none`): a search that keeps only that end misses nothing. All
occurrences that do not overlap, from the left (`occurrences`), leave none out
that overlaps none of them (`occurrences_spec`).
-/
import Mathlib.Data.List.Infix
import Mathlib.Data.Nat.Find
import Mathlib.Tactic.Common

namespace LiteralSearch

variable {α : Type*} [DecidableEq α] {needle s t : List α} {i : Nat}

/-- The first place the literal is found at. -/
def find (needle : List α) : List α → Option Nat
  | [] => if needle = [] then some 0 else none
  | a :: s => if needle <+: a :: s then some 0 else (find needle s).map (· + 1)

/-- The length of the longest end that is the beginning of the literal, but not
all of it. -/
def held (s needle : List α) : Nat :=
  Nat.findGreatest (fun k => needle.take k <:+ s) (min s.length (needle.length - 1))

/-! ## Occurrences -/

omit [DecidableEq α] in
theorem occurs_append (h : needle <+: s.drop i) (t : List α) : needle <+: (s ++ t).drop i := by
  rw [List.drop_append]
  exact h.trans (List.prefix_append ..)

omit [DecidableEq α] in
/-- An occurrence that ends within the first part is an occurrence there. -/
theorem occurs_of_append (h : needle <+: (s ++ t).drop i) (hi : i + needle.length ≤ s.length) : needle <+: s.drop i := by
  rw [List.drop_append_of_le_length (by omega)] at h
  exact List.prefix_of_prefix_length_le h (List.prefix_append ..) (by rw [List.length_drop]; omega)

theorem find_eq_some : find needle s = some i ↔ (needle <+: s.drop i ∧ i ≤ s.length) ∧ ∀ j < i, ¬ needle <+: s.drop j := by
  induction s generalizing i with
  | nil =>
    unfold find
    simp only [List.drop_nil, List.prefix_nil, List.length_nil]
    split
    next h =>
      constructor
      · intro hi
        obtain rfl := Option.some.inj hi
        exact ⟨⟨h, Nat.le_refl _⟩, fun j hj => absurd hj (Nat.not_lt_zero j)⟩
      · intro hi
        rw [Nat.le_zero.1 hi.1.2]
    next h => simp [h]
  | cons a s ih =>
    unfold find
    split
    next h =>
      rw [Option.some.injEq]
      constructor
      · intro hi
        subst hi
        exact ⟨⟨h, Nat.zero_le _⟩, fun j hj => absurd hj (Nat.not_lt_zero j)⟩
      · intro hi
        by_contra hne
        exact hi.2 0 (by omega) h
    next h =>
      rw [Option.map_eq_some_iff]
      constructor
      · rintro ⟨j, hj, rfl⟩
        obtain ⟨⟨hat, hle⟩, hfirst⟩ := ih.1 hj
        refine ⟨⟨hat, Nat.succ_le_succ hle⟩, ?_⟩
        intro k hk
        cases k with
        | zero => exact h
        | succ k => exact hfirst k (by omega)
      · rintro ⟨⟨hat, hle⟩, hfirst⟩
        cases i with
        | zero => exact absurd hat h
        | succ j =>
          refine ⟨j, ih.2 ⟨⟨hat, Nat.le_of_succ_le_succ hle⟩, ?_⟩, rfl⟩
          intro k hk
          exact hfirst (k + 1) (by omega)

theorem find_eq_none (hne : needle ≠ []) : find needle s = none ↔ ∀ j, ¬ needle <+: s.drop j := by
  constructor
  · intro h j hat
    have hj : j ≤ s.length := by
      by_contra hlt
      rw [List.drop_eq_nil_of_le (by omega)] at hat
      exact hne (List.prefix_nil.1 hat)
    have hex : ∃ j, needle <+: s.drop j := ⟨j, hat⟩
    have hfind : find needle s = some (Nat.find hex) :=
      find_eq_some.2 ⟨⟨Nat.find_spec hex, (Nat.find_min' hex hat).trans hj⟩, fun k hk => Nat.find_min hex hk⟩
    rw [h] at hfind
    cases hfind
  · intro h
    cases hfind : find needle s with
    | none => rfl
    | some i => exact absurd (find_eq_some.1 hfind).1.1 (h i)

theorem find_lt (h : find needle s = some i) : i + needle.length ≤ s.length := by
  obtain ⟨⟨hat, hle⟩, -⟩ := find_eq_some.1 h
  have hlen := hat.length_le
  rw [List.length_drop] at hlen
  omega

/-- The first occurrence stays the first. -/
theorem find_append_of_some (h : find needle s = some i) (t : List α) : find needle (s ++ t) = some i := by
  have hlt := find_lt h
  obtain ⟨⟨hat, hle⟩, hfirst⟩ := find_eq_some.1 h
  refine find_eq_some.2 ⟨⟨occurs_append hat t, by rw [List.length_append]; omega⟩, ?_⟩
  intro j hj hat'
  exact hfirst j hj (occurs_of_append hat' (by omega))

/-! ## The end that is held back -/

theorem held_le (s needle : List α) : held s needle ≤ s.length :=
  (Nat.findGreatest_le _).trans (Nat.min_le_left ..)

theorem held_lt (hne : needle ≠ []) : held s needle < needle.length := by
  have hpos := List.length_pos_iff.2 hne
  have hle : held s needle ≤ needle.length - 1 := (Nat.findGreatest_le _).trans (Nat.min_le_right ..)
  omega

theorem held_spec (s needle : List α) : needle.take (held s needle) <:+ s := by
  apply Nat.findGreatest_spec (P := fun k => needle.take k <:+ s) (Nat.zero_le _)
  exact List.nil_suffix

/-- What could begin the literal is no longer than what is held. -/
theorem le_held {k : Nat} (hk : k < needle.length) (hks : k ≤ s.length) (h : needle.take k <:+ s) : k ≤ held s needle :=
  Nat.le_findGreatest (le_min hks (by omega)) h

omit [DecidableEq α] in
theorem drop_append_drop {m j : Nat} (hm : m ≤ s.length) : (s ++ t).drop (m + j) = (s.drop m ++ t).drop j := by
  rw [← List.drop_drop, List.drop_append_of_le_length hm]

/-- Without an occurrence, a later one begins in what is held. -/
theorem occurs_in_held (hnone : ∀ j, ¬ needle <+: s.drop j) (h : needle <+: (s ++ t).drop i) :
    s.length - held s needle ≤ i := by
  by_contra hlt
  have hover : s.length < i + needle.length := by
    by_contra hle
    exact hnone i (occurs_of_append h (by omega))
  -- the literal begins with the end of `s` from `i` on
  have hbegin : s.drop i <+: needle := by
    rw [List.drop_append_of_le_length (by omega)] at h
    exact List.prefix_of_prefix_length_le (List.prefix_append ..) h (by rw [List.length_drop]; omega)
  have htake : needle.take (s.length - i) = s.drop i := by
    have := List.prefix_iff_eq_take.1 hbegin
    rw [List.length_drop] at this
    exact this.symm
  have hle := le_held (k := s.length - i) (by omega) (by omega) (htake ▸ List.drop_suffix i s)
  omega

/-- Letting go of all but the held end moves the occurrences to come, and no more. -/
theorem find_append_of_none (hne : needle ≠ []) (h : find needle s = none) (t : List α) :
    find needle (s ++ t) =
      (find needle (s.drop (s.length - held s needle) ++ t)).map (s.length - held s needle + ·) := by
  have hnone := (find_eq_none hne).1 h
  have hle : s.length - held s needle ≤ s.length := Nat.sub_le ..
  cases hfind : find needle (s.drop (s.length - held s needle) ++ t) with
  | some j =>
    obtain ⟨⟨hat, hj⟩, hfirst⟩ := find_eq_some.1 hfind
    rw [Option.map_some]
    refine find_eq_some.2 ⟨⟨?_, ?_⟩, ?_⟩
    · rw [drop_append_drop hle]
      exact hat
    · rw [List.length_append, List.length_drop] at hj
      rw [List.length_append]
      omega
    · intro k hk hat'
      have hk' := occurs_in_held hnone hat'
      refine hfirst (k - (s.length - held s needle)) (by omega) ?_
      rw [← drop_append_drop hle, Nat.add_sub_cancel' hk']
      exact hat'
  | none =>
    refine (find_eq_none hne).2 ?_
    intro k hat
    have hk := occurs_in_held hnone hat
    refine (find_eq_none hne).1 hfind (k - (s.length - held s needle)) ?_
    rw [← drop_append_drop hle, Nat.add_sub_cancel' hk]
    exact hat

/-- Nor does it change what is held later. -/
theorem held_append (hne : needle ≠ []) (s t : List α) :
    held (s ++ t) needle = held (s.drop (s.length - held s needle) ++ t) needle := by
  have hle := held_le s needle
  have hsuffix : s.drop (s.length - held s needle) ++ t <:+ s ++ t := by
    rw [← List.drop_append_of_le_length (Nat.sub_le ..)]
    exact List.drop_suffix _ _
  have hlen : (s.drop (s.length - held s needle) ++ t).length = held s needle + t.length := by
    rw [List.length_append, List.length_drop]
    omega
  apply Nat.le_antisymm
  · have hspec := held_spec (s ++ t) needle
    have hlt := held_lt (s := s ++ t) hne
    have htake : (needle.take (held (s ++ t) needle)).length = held (s ++ t) needle := by
      rw [List.length_take]
      omega
    by_cases hk : held (s ++ t) needle ≤ held s needle + t.length
    · refine le_held hlt (by omega) ?_
      exact List.suffix_of_suffix_length_le hspec hsuffix (by omega)
    · -- otherwise it would begin before the held end of `s`
      obtain ⟨u, hu⟩ := hspec
      have hulen := congrArg List.length hu
      rw [List.length_append, htake, List.length_append] at hulen
      obtain ⟨v, hv⟩ : t <:+ needle.take (held (s ++ t) needle) :=
        List.suffix_of_suffix_length_le (List.suffix_append s t) ⟨u, hu⟩ (by omega)
      have hvlen := congrArg List.length hv
      rw [List.length_append, htake] at hvlen
      have hbegin : needle.take (held (s ++ t) needle - t.length) = v := by
        have := congrArg (List.take v.length) hv
        rw [List.take_left, List.take_take, Nat.min_eq_left (by omega)] at this
        rw [this]
        congr 1
        omega
      have hvs : v <:+ s := by
        rw [← hv, ← List.append_assoc] at hu
        exact ⟨u, List.append_cancel_right hu⟩
      have := le_held (s := s) (k := held (s ++ t) needle - t.length) (by omega) (by omega) (hbegin ▸ hvs)
      omega
  · refine le_held (held_lt hne) ?_ ((held_spec _ _).trans hsuffix)
    exact (held_le _ _).trans hsuffix.length_le

/-- Nor what is let go in all. -/
theorem released_append (hne : needle ≠ []) (s t : List α) :
    (s ++ t).length - held (s ++ t) needle = (s.length - held s needle) +
      ((s.drop (s.length - held s needle) ++ t).length - held (s.drop (s.length - held s needle) ++ t) needle) := by
  have hle := held_le s needle
  have hle' := held_le (s.drop (s.length - held s needle) ++ t) needle
  have hlen : (s.drop (s.length - held s needle) ++ t).length = held s needle + t.length := by
    rw [List.length_append, List.length_drop]
    omega
  rw [held_append hne s t, @List.length_append _ s t]
  omega

/-! ## All occurrences -/

/-- The occurrences from a place on, when so many elements are still part of the last one. -/
def occurrencesFrom (needle : List α) : Nat → Nat → List α → List Nat
  | _, _, [] => []
  | i, skip + 1, _ :: s => occurrencesFrom needle (i + 1) skip s
  | i, 0, a :: s =>
    if needle <+: a :: s then i :: occurrencesFrom needle (i + 1) (needle.length - 1) s
    else occurrencesFrom needle (i + 1) 0 s

/-- The occurrences of a literal that do not overlap, from the left. -/
def occurrences (needle s : List α) : List Nat := occurrencesFrom needle 0 0 s

/-- The places are occurrences, one after the other, and every occurrence begins within one of them. -/
structure IsSearch (needle s : List α) (found : List Nat) : Prop where
  occurs : ∀ i ∈ found, needle <+: s.drop i
  apart : found.Pairwise fun i j => i + needle.length ≤ j
  covered : ∀ j, needle <+: s.drop j → ∃ i ∈ found, i ≤ j ∧ j < i + needle.length

theorem le_of_mem_occurrencesFrom {skip m : Nat} (h : m ∈ occurrencesFrom needle i skip s) : i + skip ≤ m := by
  induction s generalizing i skip with
  | nil => exact absurd h List.not_mem_nil
  | cons a s ih =>
    cases skip with
    | succ skip =>
      have := ih h
      omega
    | zero =>
      rw [occurrencesFrom] at h
      split at h
      · rcases List.mem_cons.1 h with rfl | h
        · exact Nat.le_refl _
        · have := ih h
          omega
      · have := ih h
        omega

theorem occurs_of_mem_occurrencesFrom {skip m : Nat} (h : m ∈ occurrencesFrom needle i skip s) :
    needle <+: s.drop (m - i) := by
  induction s generalizing i skip with
  | nil => exact absurd h List.not_mem_nil
  | cons a s ih =>
    have hlater : ∀ skip', m ∈ occurrencesFrom needle (i + 1) skip' s → needle <+: (a :: s).drop (m - i) := by
      intro skip' hm
      have hle := le_of_mem_occurrencesFrom hm
      obtain ⟨k, hk⟩ : ∃ k, m - i = k + 1 := ⟨m - i - 1, by omega⟩
      rw [hk, List.drop_succ_cons, show k = m - (i + 1) by omega]
      exact ih hm
    cases skip with
    | succ skip => exact hlater skip h
    | zero =>
      rw [occurrencesFrom] at h
      split at h
      next hhere =>
        rcases List.mem_cons.1 h with rfl | h
        · rwa [Nat.sub_self]
        · exact hlater _ h
      next => exact hlater _ h

theorem pairwise_occurrencesFrom (hne : needle ≠ []) (i skip : Nat) (s : List α) :
    (occurrencesFrom needle i skip s).Pairwise fun m m' => m + needle.length ≤ m' := by
  induction s generalizing i skip with
  | nil => exact List.Pairwise.nil
  | cons a s ih =>
    cases skip with
    | succ skip => exact ih (i + 1) skip
    | zero =>
      rw [occurrencesFrom]
      split
      · refine List.pairwise_cons.2 ⟨?_, ih _ _⟩
        intro m hm
        have hle := le_of_mem_occurrencesFrom hm
        omega
      · exact ih _ _

/-- An occurrence past the skipped elements begins within one that is found. -/
theorem exists_of_occurs (hne : needle ≠ []) {skip k : Nat} (hk : skip ≤ k) (h : needle <+: s.drop k) :
    ∃ m ∈ occurrencesFrom needle i skip s, m ≤ i + k ∧ i + k < m + needle.length := by
  induction s generalizing i skip k with
  | nil =>
    rw [List.drop_nil] at h
    exact absurd (List.prefix_nil.1 h) hne
  | cons a s ih =>
    have hlater : ∀ skip', skip' + 1 ≤ k →
        ∃ m ∈ occurrencesFrom needle (i + 1) skip' s, m ≤ i + k ∧ i + k < m + needle.length := by
      intro skip' hskip
      obtain ⟨j, rfl⟩ : ∃ j, k = j + 1 := ⟨k - 1, by omega⟩
      obtain ⟨m, hm, hle, hlt⟩ := @ih (i + 1) skip' j (by omega) h
      exact ⟨m, hm, by omega, by omega⟩
    cases skip with
    | succ skip => exact hlater skip hk
    | zero =>
      rw [occurrencesFrom]
      split
      next hhere =>
        by_cases hin : k < needle.length
        · exact ⟨i, List.mem_cons_self .., by omega, by omega⟩
        · have hpos := List.length_pos_iff.2 hne
          obtain ⟨m, hm, hbounds⟩ := hlater (needle.length - 1) (by omega)
          exact ⟨m, List.mem_cons_of_mem _ hm, hbounds⟩
      next hhere =>
        cases k with
        | zero => exact absurd h hhere
        | succ k => exact hlater 0 (by omega)

/-- **A search from the left** finds what it should. -/
theorem occurrences_spec (hne : needle ≠ []) (s : List α) : IsSearch needle s (occurrences needle s) where
  occurs m hm := by simpa using occurs_of_mem_occurrencesFrom hm
  apart := pairwise_occurrencesFrom hne 0 0 s
  covered j h := by simpa [occurrences] using @exists_of_occurs _ _ _ _ 0 hne 0 j (Nat.zero_le _) h

end LiteralSearch
