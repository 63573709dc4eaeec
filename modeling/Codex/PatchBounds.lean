/-
Replacements within the lines. `compute_replacements` finds every range in the original
lines, and `apply_replacements` goes from the last start to the first: while it removes
lines only where there are any, it inserts without a check, and `Vec::insert` panics past
the end. Removing from one start leaves the lines before it, so that there is a place for
the next one.

Source: apply-patch/src/lib.rs.
-/
import Codex.Lib.Results
import Codex.Lib.Splices
import Codex.PatchSearch

namespace Codex.Patch

open Results Splices Text

/-! ## The loops of `apply_replacements` -/

/-- `Vec::insert`, which panics past the end. -/
def insertLine (lines : List Text) (index : Nat) (line : Text) : Option (List Text) :=
  if index ≤ lines.length then some (lines.insertIdx index line) else none

/-- "Remove old lines.": as many times as there are old lines, while there is a line at the start. -/
def removeOldLines (startIndex : Nat) : Nat → List Text → List Text
  | 0, lines => lines
  | oldLen + 1, lines =>
    removeOldLines startIndex oldLen (if startIndex < lines.length then lines.eraseIdx startIndex else lines)

/-- "Insert new lines." -/
def insertNewLines (startIndex : Nat) : Nat → List Text → List Text → Option (List Text)
  | _, [], lines => some lines
  | offset, newLine :: newSegment, lines => do
    insertNewLines startIndex (offset + 1) newSegment (← insertLine lines (startIndex + offset) newLine)

/-- `apply_replacements` with the inserts that may panic. -/
def runReplacements (lines : List Text) (replacements : List Replacement) : Option (List Text) :=
  replacements.reverse.foldlM
    (fun lines r => insertNewLines r.startIndex 0 r.newLines (removeOldLines r.startIndex r.oldLen lines)) lines

theorem removeOldLines_eq (startIndex oldLen : Nat) (lines : List Text) :
    removeOldLines startIndex oldLen lines = lines.take startIndex ++ lines.drop (startIndex + oldLen) := by
  induction oldLen generalizing lines with
  | zero => exact (List.take_append_drop startIndex lines).symm
  | succ oldLen ih =>
    rw [removeOldLines, ih]
    split
    next hlt =>
      have hlength : (lines.take startIndex).length = startIndex := List.length_take_of_le (Nat.le_of_lt hlt)
      rw [List.eraseIdx_eq_take_drop_succ, List.take_left' hlength, List.drop_append, hlength,
        List.drop_eq_nil_of_le (by omega), List.nil_append, Nat.add_sub_cancel_left, List.drop_drop,
        show startIndex + 1 + oldLen = startIndex + (oldLen + 1) by omega]
    next hge =>
      rw [List.drop_eq_nil_of_le (by omega), List.drop_eq_nil_of_le (by omega)]

variable {lines : List Text} {r : Replacement} {replacements : List Replacement} {path : Text}
  {lineIndex : Nat} {chunk : UpdateFileChunk} {chunks : List UpdateFileChunk}

theorem insertNewLines_eq {startIndex offset : Nat} (newSegment : List Text)
    (h : startIndex + offset ≤ lines.length) :
    insertNewLines startIndex offset newSegment lines =
      some (lines.take (startIndex + offset) ++ newSegment ++ lines.drop (startIndex + offset)) := by
  induction newSegment generalizing offset lines with
  | nil => rw [insertNewLines, List.append_nil, List.take_append_drop]
  | cons newLine newSegment ih =>
    have hlength : (lines.take (startIndex + offset)).length = startIndex + offset := List.length_take_of_le h
    have hinsert : insertLine lines (startIndex + offset) newLine =
        some (lines.take (startIndex + offset) ++ newLine :: lines.drop (startIndex + offset)) := by
      have hbetween := insertIdx_append (lines.take (startIndex + offset)) (lines.drop (startIndex + offset)) newLine
      rw [hlength, List.take_append_drop] at hbetween
      rw [insertLine, if_pos h, hbetween]
    have hnext : (lines.take (startIndex + offset) ++ [newLine]).length = startIndex + (offset + 1) := by
      rw [List.length_append, hlength]
      rfl
    rw [insertNewLines, hinsert, List.append_cons]
    show insertNewLines startIndex (offset + 1) newSegment _ = _
    rw [ih (by rw [List.length_append, hnext]; exact Nat.le_add_right ..), List.take_left' hnext, List.drop_left' hnext,
      List.append_assoc _ [newLine], List.singleton_append]

/-- One replacement, with its start within the lines: it is made, and its start is within them still. -/
theorem run_replacement (h : r.startIndex ≤ lines.length) :
    insertNewLines r.startIndex 0 r.newLines (removeOldLines r.startIndex r.oldLen lines) =
      some (lines.take r.startIndex ++ r.newLines ++ lines.drop (r.startIndex + r.oldLen)) ∧
      r.startIndex ≤ (lines.take r.startIndex ++ r.newLines ++ lines.drop (r.startIndex + r.oldLen)).length := by
  have hlength : (lines.take r.startIndex).length = r.startIndex := List.length_take_of_le h
  have hbefore : r.startIndex ≤ (lines.take r.startIndex ++ lines.drop (r.startIndex + r.oldLen)).length := by
    rw [List.length_append, hlength]
    exact Nat.le_add_right ..
  constructor
  · rw [removeOldLines_eq, insertNewLines_eq _ hbefore, Nat.add_zero, List.take_left' hlength, List.drop_left' hlength]
  · rw [List.append_assoc, List.length_append, hlength]
    exact Nat.le_add_right ..

/-- **From the last start to the first** no insert is past the end. -/
theorem run_sorted (hsorted : replacements.Pairwise fun a b => a.startIndex ≤ b.startIndex)
    (hin : ∀ r ∈ replacements, r.startIndex ≤ lines.length) :
    runReplacements lines replacements = some (applyReplacements lines replacements) ∧
      ∀ r ∈ replacements.head?, r.startIndex ≤ (applyReplacements lines replacements).length := by
  induction replacements with
  | nil => exact ⟨rfl, by simp⟩
  | cons r rest ih =>
    obtain ⟨hr, hrest⟩ := List.forall_mem_cons.1 hin
    obtain ⟨hstart, hsorted⟩ := List.pairwise_cons.1 hsorted
    obtain ⟨hrun, hhead⟩ := ih hsorted hrest
    have hle : r.startIndex ≤ (applyReplacements lines rest).length := by
      cases rest with
      | nil => exact hr
      | cons next rest => exact (hstart next List.mem_cons_self).trans (hhead next rfl)
    have happly : applyReplacements lines (r :: rest) = (applyReplacements lines rest).take r.startIndex ++ r.newLines ++
        (applyReplacements lines rest).drop (r.startIndex + r.oldLen) := by
      rw [applyReplacements, List.reverse_cons, List.foldl_append]
      rfl
    obtain ⟨hone, hbound⟩ := run_replacement hle
    rw [happly]
    refine ⟨?_, by simpa using hbound⟩
    rw [runReplacements, List.reverse_cons, List.foldlM_append]
    rw [runReplacements] at hrun
    rw [hrun]
    simpa using hone

/-! ## Where the ranges are -/

theorem seekSequence_in_bounds {pattern} {start i : Nat} {eof : Bool}
    (h : seekSequence lines pattern start eof = some i) (hstart : start ≤ lines.length) :
    i + pattern.length ≤ lines.length := by
  by_cases hne : pattern = []
  · rw [seekSequence, if_pos hne, Option.some_inj] at h
    rw [hne, ← h]
    exact hstart
  · exact (seekSequence_eq_some hne h).2.1

theorem seekContext_in_bounds {i : Nat} {changeContext}
    (h : seekContext lines path lineIndex changeContext = .ok i) (hindex : lineIndex ≤ lines.length) :
    i ≤ lines.length := by
  unfold seekContext at h
  split at h
  · cases h
    exact hindex
  · split at h
    next hseek =>
      cases h
      exact seekSequence_in_bounds hseek hindex
    · cases h

theorem seekOldLines_in_bounds
    (h : seekOldLines lines lineIndex chunk = some r) (hindex : lineIndex ≤ lines.length) :
    r.startIndex + r.oldLen ≤ lines.length := by
  unfold seekOldLines at h
  split at h
  next hseek =>
    cases h
    exact seekSequence_in_bounds hseek hindex
  next =>
    split at h
    · obtain ⟨start, hseek, rfl⟩ := Option.map_eq_some_iff.1 h
      exact seekSequence_in_bounds hseek hindex
    · cases h

/-- Where a pure addition goes: behind the lines, or before a final empty one. -/
def insertionIdx (lines : List Text) : Nat := if lines.getLast? = some [] then lines.length - 1 else lines.length

/-- What is pushed for a chunk behind its context, and `line_index` after it. -/
def chunkReplacement (lines : List Text) (lineIndex : Nat) (chunk : UpdateFileChunk) : Option (Replacement × Nat) :=
  if chunk.oldLines = [] then some (⟨insertionIdx lines, 0, chunk.newLines⟩, lineIndex)
  else (seekOldLines lines lineIndex chunk).map fun r => (r, r.startIndex + r.oldLen)

/-- One round of the loop of `compute_replacements`. -/
theorem collectReplacements_cons
    (h : collectReplacements lines path lineIndex (chunk :: chunks) = .ok replacements) :
    ∃ idx r next rest, seekContext lines path lineIndex chunk.changeContext = .ok idx ∧
      chunkReplacement lines idx chunk = some (r, next) ∧ collectReplacements lines path next chunks = .ok rest ∧
      replacements = r :: rest := by
  rw [collectReplacements, bind_eq_ok] at h
  obtain ⟨idx, hidx, h⟩ := h
  split at h
  next hold =>
    obtain ⟨rest, hrest, heq⟩ := bind_eq_ok.1 h
    cases heq
    exact ⟨idx, _, idx, rest, hidx, by rw [chunkReplacement, if_pos hold]; rfl, hrest, rfl⟩
  next hold =>
    split at h
    next r hr =>
      obtain ⟨rest, hrest, heq⟩ := bind_eq_ok.1 h
      cases heq
      exact ⟨idx, r, _, rest, hidx, by rw [chunkReplacement, if_neg hold, hr]; rfl, hrest, rfl⟩
    · cases h

theorem insertionIdx_le (lines : List Text) : insertionIdx lines ≤ lines.length := by
  unfold insertionIdx
  split <;> omega

theorem chunkReplacement_in_bounds {next : Nat}
    (h : chunkReplacement lines lineIndex chunk = some (r, next)) (hindex : lineIndex ≤ lines.length) :
    r.startIndex + r.oldLen ≤ lines.length ∧ next ≤ lines.length := by
  unfold chunkReplacement at h
  split at h
  · cases h
    exact ⟨insertionIdx_le lines, hindex⟩
  · obtain ⟨found, hfound, heq⟩ := Option.map_eq_some_iff.1 h
    cases heq
    have hle := seekOldLines_in_bounds hfound hindex
    exact ⟨hle, hle⟩

/-- Every range is within the original lines. -/
theorem collectReplacements_in_bounds
    (h : collectReplacements lines path lineIndex chunks = .ok replacements)
    (hindex : lineIndex ≤ lines.length) : ∀ r ∈ replacements, r.startIndex + r.oldLen ≤ lines.length := by
  induction chunks generalizing lineIndex replacements with
  | nil =>
    cases h
    exact List.forall_mem_nil _
  | cons chunk chunks ih =>
    obtain ⟨idx, r, next, rest, hidx, hchunk, hrest, rfl⟩ := collectReplacements_cons h
    obtain ⟨hr, hnext⟩ := chunkReplacement_in_bounds hchunk (seekContext_in_bounds hidx hindex)
    exact List.forall_mem_cons.2 ⟨hr, ih hrest hnext⟩

/-- `sort_by_key` of the start index, which is stable. -/
def sortByStart (replacements : List Replacement) : List Replacement :=
  replacements.insertionSort fun a b => a.startIndex ≤ b.startIndex

theorem mem_sortByStart : r ∈ sortByStart replacements ↔ r ∈ replacements := List.mem_insertionSort _

theorem pairwise_sortByStart (replacements : List Replacement) :
    (sortByStart replacements).Pairwise fun a b => a.startIndex ≤ b.startIndex := by
  exact List.pairwise_insertionSort _ replacements

/-- The list that is returned: those of the loop, sorted by where they start. -/
theorem computeReplacements_eq_ok (h : computeReplacements lines path chunks = .ok replacements) :
    ∃ collected, collectReplacements lines path 0 chunks = .ok collected ∧ replacements = sortByStart collected := by
  obtain ⟨collected, hcollected, heq⟩ := bind_eq_ok.1 h
  cases heq
  exact ⟨collected, hcollected, rfl⟩

/-- **Replacements stay within bounds**: their ranges are within the lines, and none of the inserts that put
them in is past the end. -/
theorem replacements_in_bounds {lines : List Text} {path : Text} {chunks : List UpdateFileChunk}
    {replacements : List Replacement} (h : computeReplacements lines path chunks = .ok replacements) :
    (∀ r ∈ replacements, r.startIndex + r.oldLen ≤ lines.length) ∧
      runReplacements lines replacements = some (applyReplacements lines replacements) := by
  obtain ⟨collected, hcollected, rfl⟩ := computeReplacements_eq_ok h
  have hin := collectReplacements_in_bounds hcollected (Nat.zero_le _)
  have hall : ∀ r ∈ sortByStart collected, r.startIndex + r.oldLen ≤ lines.length :=
    fun r hr => hin r (mem_sortByStart.1 hr)
  refine ⟨hall, (run_sorted (pairwise_sortByStart collected) ?_).1⟩
  intro r hr
  have := hall r hr
  omega

/-- Two chunks for the end of the file that replace the same line. -/
def sameEnd : List UpdateFileChunk :=
  [{ changeContext := none, oldLines := [['b']], newLines := [['c'], ['d']], isEndOfFile := true },
    { changeContext := none, oldLines := [['b']], newLines := [], isEndOfFile := true }]

def sameEndReplacements : List Replacement := [⟨1, 1, [['c'], ['d']]⟩, ⟨1, 1, []⟩]

theorem replacements_in_bounds_sameEnd :
    (∀ r ∈ sameEndReplacements, r.startIndex + r.oldLen ≤ ([['a'], ['b']] : List Text).length) ∧
      runReplacements [['a'], ['b']] sameEndReplacements = some (applyReplacements [['a'], ['b']] sameEndReplacements) :=
  have hcomputed : computeReplacements [['a'], ['b']] [] sameEnd = .ok sameEndReplacements := by rfl
  replacements_in_bounds hcomputed

end Codex.Patch
