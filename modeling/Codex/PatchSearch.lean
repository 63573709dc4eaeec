/-
The search for a chunk's lines (`seek_sequence`). Each of its four tiers is tried
over all positions from where the search starts. For the end of the file this is the
last position there can be, so that the tiers are tried there and nowhere else: the
search from `start` that the doc comment has for the fallback is not made
(`fallsBack_iff`).

Source: apply-patch/src/seek_sequence.rs.
-/
import Codex.PatchApply

namespace Codex.Patch

open Text

/-- The tiers, from the strictest on. -/
def tiers : List (Text → Text) := [id, trimEnd, trim, normalise]

/-- Some tier matches at the position. -/
def MatchesAt (lines pattern : List Text) (i : Nat) : Prop :=
  i + pattern.length ≤ lines.length ∧
    ∃ norm ∈ tiers, ((lines.drop i).take pattern.length).map norm = pattern.map norm

instance (lines pattern : List Text) (i : Nat) : Decidable (MatchesAt lines pattern i) :=
  inferInstanceAs (Decidable (_ ∧ _))

def endPosition (lines pattern : List Text) : Nat := lines.length - pattern.length

variable {lines pattern : List Text} {start : Nat}

theorem firstMatch_eq_some {norm : Text → Text} {i : Nat}
    (h : firstMatch norm lines pattern start = some i) :
    start ≤ i ∧ i < lines.length - pattern.length + 1 ∧
      ((lines.drop i).take pattern.length).map norm = pattern.map norm := by
  have hmem := List.mem_range'_1.1 (List.mem_of_find?_eq_some h)
  have hmatch := List.find?_some h
  exact ⟨hmem.1, by omega, beq_iff_eq.1 hmatch⟩

theorem firstMatch_isSome_iff {norm : Text → Text} :
    (firstMatch norm lines pattern start).isSome ↔ ∃ i, start ≤ i ∧ i < lines.length - pattern.length + 1 ∧
      ((lines.drop i).take pattern.length).map norm = pattern.map norm := by
  constructor
  · intro h
    obtain ⟨i, hi⟩ := Option.isSome_iff_exists.1 h
    exact ⟨i, firstMatch_eq_some hi⟩
  · rintro ⟨i, hstart, hlt, hmatch⟩
    refine List.find?_isSome.2 ⟨i, List.mem_range'_1.2 ⟨hstart, by omega⟩, beq_iff_eq.2 hmatch⟩

def searchStart (lines pattern : List Text) (start : Nat) (eof : Bool) : Nat :=
  if eof then endPosition lines pattern else start

theorem seekSequence_eq_findSome (lines : List Text) (hne : pattern ≠ []) (start : Nat) (eof : Bool) :
    seekSequence lines pattern start eof =
      if lines.length < pattern.length then none
      else tiers.findSome? fun norm => firstMatch norm lines pattern (searchStart lines pattern start eof) := by
  rw [seekSequence, if_neg hne]
  refine if_congr Iff.rfl rfl ?_
  simp only [tiers, List.findSome?_cons, List.findSome?_nil, searchStart, endPosition]
  cases firstMatch id lines pattern (if eof then lines.length - pattern.length else start) <;>
    cases firstMatch trimEnd lines pattern (if eof then lines.length - pattern.length else start) <;>
      cases firstMatch trim lines pattern (if eof then lines.length - pattern.length else start) <;>
        cases firstMatch normalise lines pattern (if eof then lines.length - pattern.length else start) <;> rfl

theorem seekSequence_eq_some (hne : pattern ≠ []) {i : Nat} {eof : Bool}
    (h : seekSequence lines pattern start eof = some i) :
    searchStart lines pattern start eof ≤ i ∧ MatchesAt lines pattern i := by
  rw [seekSequence_eq_findSome lines hne] at h
  split at h
  · cases h
  · obtain ⟨norm, hnorm, hfirst⟩ := List.exists_of_findSome?_eq_some h
    obtain ⟨hstart, hlt, hmatch⟩ := firstMatch_eq_some hfirst
    exact ⟨hstart, by omega, norm, hnorm, hmatch⟩

theorem seekSequence_isSome_iff (hne : pattern ≠ []) {eof : Bool} :
    (seekSequence lines pattern start eof).isSome ↔
      ∃ i, searchStart lines pattern start eof ≤ i ∧ MatchesAt lines pattern i := by
  constructor
  · intro h
    obtain ⟨i, hi⟩ := Option.isSome_iff_exists.1 h
    exact ⟨i, seekSequence_eq_some hne hi⟩
  · rintro ⟨i, hstart, hend, norm, hnorm, hmatch⟩
    rw [seekSequence_eq_findSome lines hne, if_neg (by omega), List.findSome?_isSome_iff]
    exact ⟨norm, hnorm, firstMatch_isSome_iff.2 ⟨i, hstart, by omega, hmatch⟩⟩

/-- **For the end of the file** the search is made at the one position that ends there. -/
theorem seekSequence_eof (lines : List Text) (hne : pattern ≠ []) (start : Nat) :
    seekSequence lines pattern start true =
      if MatchesAt lines pattern (endPosition lines pattern) then some (endPosition lines pattern) else none := by
  split
  next hmatches =>
    have hfound : (seekSequence lines pattern start true).isSome :=
      (seekSequence_isSome_iff hne).2 ⟨_, Nat.le_refl _, hmatches⟩
    obtain ⟨i, hi⟩ := Option.isSome_iff_exists.1 hfound
    obtain ⟨hstart, hend, -⟩ := seekSequence_eq_some hne hi
    rw [hi, Option.some_inj]
    rw [searchStart, if_pos rfl] at hstart
    unfold endPosition at hstart ⊢
    omega
  next hno =>
    refine Option.not_isSome_iff_eq_none.1 ?_
    intro hsome
    obtain ⟨i, hstart, hmatches⟩ := (seekSequence_isSome_iff hne).1 hsome
    -- nothing can match further on
    have hi : i = endPosition lines pattern := by
      have hend := hmatches.1
      rw [searchStart, if_pos rfl] at hstart
      unfold endPosition at hstart ⊢
      omega
    exact hno (hi ▸ hmatches)

/-- What the doc comment says of a search with `eof`: first at the end of the file, and else from `start` on. -/
def FallsBack (lines pattern : List Text) (start : Nat) : Prop :=
  (MatchesAt lines pattern (endPosition lines pattern) →
      seekSequence lines pattern start true = some (endPosition lines pattern)) ∧
    (¬ MatchesAt lines pattern (endPosition lines pattern) →
      ((seekSequence lines pattern start true).isSome ↔ ∃ i, start ≤ i ∧ MatchesAt lines pattern i))

/-- **The search for the end of the file falls back** where there is nothing to fall back to. -/
theorem fallsBack_iff {lines pattern : List Text} (hne : pattern ≠ []) (start : Nat) :
    FallsBack lines pattern start ↔
      MatchesAt lines pattern (endPosition lines pattern) ∨ ∀ i, start ≤ i → ¬ MatchesAt lines pattern i := by
  rw [FallsBack, seekSequence_eof lines hne]
  by_cases hend : MatchesAt lines pattern (endPosition lines pattern)
  · simp [hend]
  · simp [hend]

theorem fallsBack_iff_last : FallsBack [['a'], ['b']] [['b']] 0 ↔
    MatchesAt [['a'], ['b']] [['b']] (endPosition [['a'], ['b']] [['b']]) ∨
      ∀ i, 0 ≤ i → ¬ MatchesAt [['a'], ['b']] [['b']] i :=
  fallsBack_iff (by decide) 0

/-- The line is there, but not the last. -/
theorem not_fallsBack_first : ([['a']] : List Text) ≠ [] ∧ ¬ FallsBack [['a'], ['b']] [['a']] 0 := by
  refine ⟨by decide, ?_⟩
  intro h
  have hsome := (h.2 (by decide)).2 ⟨0, Nat.le_refl 0, by decide⟩
  cases hsome

end Codex.Patch
