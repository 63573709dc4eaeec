/-
Chunks applied as a rewriting of the lines from left to right. The reference
(`rewriteLines`) has only the lines in front of it that are left: it passes the
first match of a chunk's context, puts the new lines in the place of the first
match of the old ones and goes on behind them. `compute_replacements` collects
positions in the whole file instead, and `apply_replacements` puts the new lines in
from the last to the first. Both have the same lines (`computeReplacements_eq`).

Source: apply-patch/src/lib.rs, seek_sequence.rs.
-/
import Codex.Lib.Splices
import Codex.PatchApply

namespace Codex.Patch

open Splices Text

/-! ## The reference -/

/-- Lines around a stretch of them. -/
structure Located where
  before : List Text
  found : List Text
  after : List Text

/-- The first stretch that agrees with the pattern once both are put through `norm`. -/
def locateBy (norm : Text → Text) (pattern : List Text) : List Text → Option Located
  | [] => if pattern = [] then some ⟨[], [], []⟩ else none
  | line :: rest =>
    if ((line :: rest).take pattern.length).map norm = pattern.map norm then
      some ⟨[], (line :: rest).take pattern.length, (line :: rest).drop pattern.length⟩
    else (locateBy norm pattern rest).map fun located => { located with before := line :: located.before }

/-- The first match, by the strictest tier that has one. -/
def locate (pattern lines : List Text) : Option Located :=
  (locateBy id pattern lines).orElse fun _ => (locateBy trimEnd pattern lines).orElse fun _ =>
    (locateBy trim pattern lines).orElse fun _ => locateBy normalise pattern lines

/-- The lines without the empty one at their end. -/
def withoutFinalEmpty (lines : List Text) : List Text := if lines.getLast? = some [] then lines.dropLast else lines

/-- The lines passed for a context, and those left. -/
def passContext (changeContext : Option Text) (lines : List Text) : Option (List Text × List Text) :=
  match changeContext with
  | none => some ([], lines)
  | some context => (locate [context] lines).map fun located => (located.before ++ located.found, located.after)

/-- The old lines found and the new ones to take their place, retried without a final empty line. -/
def locateChunk (chunk : UpdateFileChunk) (lines : List Text) : Option (Located × List Text) :=
  match locate chunk.oldLines lines with
  | some located => some (located, chunk.newLines)
  | none =>
    if chunk.oldLines.getLast? = some [] then
      (locate chunk.oldLines.dropLast lines).map fun located => (located, withoutFinalEmpty chunk.newLines)
    else none

/-- **The reference rewriter.** -/
def rewriteLines : List UpdateFileChunk → List Text → Option (List Text)
  | [], lines => some lines
  | chunk :: chunks, lines => do
    let (passed, lines) ← passContext chunk.changeContext lines
    let (located, new) ← locateChunk chunk lines
    return passed ++ located.before ++ new ++ (← rewriteLines chunks located.after)

/-- The lines of a file; what follows the last newline is a line unless it is empty. -/
def fileLines (contents : Text) : List Text := withoutFinalEmpty (contents.splitOn '\n')

/-- Lines, a newline after each. -/
def writeLines (lines : List Text) : Text := lines.flatMap (· ++ ['\n'])

/-! ## Searching -/

variable {pattern lines : List Text} {located : Located} (path : Text) {chunks : List UpdateFileChunk}

theorem locateBy_eq_some {norm : Text → Text} (h : locateBy norm pattern lines = some located) :
    lines = located.before ++ located.found ++ located.after ∧ located.found.length = pattern.length := by
  induction lines generalizing located with
  | nil =>
    unfold locateBy at h
    split at h
    next hpattern =>
      cases h
      exact ⟨rfl, by rw [hpattern]⟩
    · cases h
  | cons line rest ih =>
    unfold locateBy at h
    split at h
    next hmatch =>
      cases h
      refine ⟨(List.take_append_drop ..).symm, ?_⟩
      simpa using congrArg List.length hmatch
    next =>
      obtain ⟨inner, hinner, rfl⟩ := Option.map_eq_some_iff.1 h
      obtain ⟨hlines, hfound⟩ := ih hinner
      exact ⟨by rw [hlines]; rfl, hfound⟩

theorem locateBy_of_lt {norm : Text → Text} (h : lines.length < pattern.length) :
    locateBy norm pattern lines = none := by
  cases hlocated : locateBy norm pattern lines with
  | none => rfl
  | some located =>
    obtain ⟨hlines, hfound⟩ := locateBy_eq_some hlocated
    have hlength := congrArg List.length hlines
    simp only [List.length_append] at hlength
    omega

/-- One pass of `seek_sequence` finds what the reference does. -/
theorem firstMatch_eq (norm : Text → Text) (hne : pattern ≠ []) {done rest}
    (hlen : pattern.length ≤ (done ++ rest).length) :
    firstMatch norm (done ++ rest) pattern done.length =
      (locateBy norm pattern rest).map fun located => done.length + located.before.length := by
  have hpos := List.length_pos_of_ne_nil hne
  rw [List.length_append] at hlen
  induction rest generalizing done with
  | nil =>
    rw [List.length_nil] at hlen
    rw [locateBy, if_neg hne, firstMatch, List.append_nil, show done.length - pattern.length + 1 - done.length = 0 by omega]
    rfl
  | cons line rest ih =>
    rcases Nat.lt_or_ge (line :: rest).length pattern.length with hshort | hlong
    · rw [locateBy_of_lt hshort, firstMatch, List.length_append,
        show done.length + (line :: rest).length - pattern.length + 1 - done.length = 0 by omega]
      rfl
    · have hnext := @ih (done ++ [line]) (by
        rw [List.length_append, List.length_singleton]
        rw [List.length_cons] at hlen
        omega)
      rw [List.append_assoc, List.singleton_append, List.length_append, List.length_singleton] at hnext
      rw [firstMatch, List.length_append, show done.length + (line :: rest).length - pattern.length + 1 - done.length =
        (done.length + (line :: rest).length - pattern.length + 1 - (done.length + 1)) + 1 by omega, List.range'_succ,
        List.find?_cons, List.drop_left, locateBy]
      by_cases hmatch : ((line :: rest).take pattern.length).map norm = pattern.map norm
      · rw [if_pos hmatch, beq_iff_eq.2 hmatch]
        rfl
      · rw [if_neg hmatch, beq_eq_false_iff_ne.2 hmatch]
        rw [firstMatch, List.length_append] at hnext
        dsimp only
        rw [hnext, Option.map_map]
        congr 1
        funext located
        show _ = done.length + (located.before.length + 1)
        omega

theorem locate_nil (lines : List Text) : locate [] lines = some ⟨[], [], lines⟩ := by
  cases lines <;> rfl

theorem eq_some_of_orElse {α : Type} {o} {o' : Unit → Option α} {a : α} (h : o.orElse o' = some a) :
    o = some a ∨ o' () = some a := by
  cases o with
  | none => exact .inr h
  | some b => exact .inl h

theorem locate_eq_some (h : locate pattern lines = some located) :
    lines = located.before ++ located.found ++ located.after ∧ located.found.length = pattern.length := by
  rcases eq_some_of_orElse h with h | h
  · exact locateBy_eq_some h
  · rcases eq_some_of_orElse h with h | h
    · exact locateBy_eq_some h
    · rcases eq_some_of_orElse h with h | h
      · exact locateBy_eq_some h
      · exact locateBy_eq_some h

theorem map_orElse {α β : Type} (f : α → β) (o : Option α) (o' : Unit → Option α) :
    (o.orElse o').map f = (o.map f).orElse fun _ => (o' ()).map f := by
  cases o <;> rfl

/-- **`seek_sequence` from behind some lines** finds the first match in the others. -/
theorem seekSequence_eq (pattern done rest : List Text) :
    seekSequence (done ++ rest) pattern done.length false =
      (locate pattern rest).map fun located => done.length + located.before.length := by
  rw [seekSequence]
  split
  next hnil =>
    rw [hnil, locate_nil]
    rfl
  next hne =>
    split
    next hshort =>
      rw [List.length_append] at hshort
      have hlt : rest.length < pattern.length := by omega
      rw [locate, locateBy_of_lt hlt, locateBy_of_lt hlt, locateBy_of_lt hlt, locateBy_of_lt hlt]
      rfl
    next hlong =>
      have hlen := Nat.le_of_not_lt hlong
      rw [locate, map_orElse, map_orElse, map_orElse, if_neg Bool.false_ne_true]
      dsimp only
      rw [firstMatch_eq id hne hlen,
        firstMatch_eq trimEnd hne hlen, firstMatch_eq trim hne hlen, firstMatch_eq normalise hne hlen]

/-! ## Collecting the replacements -/

theorem passContext_eq_some {changeContext passed rest}
    (h : passContext changeContext lines = some (passed, rest)) : lines = passed ++ rest := by
  unfold passContext at h
  split at h
  · cases h
    rfl
  · obtain ⟨located, hlocated, heq⟩ := Option.map_eq_some_iff.1 h
    cases heq
    exact (locate_eq_some hlocated).1

theorem seekContext_eq (changeContext : Option Text) (done rest : List Text) :
    match passContext changeContext rest with
    | some (passed, _) => seekContext (done ++ rest) path done.length changeContext = .ok (done ++ passed).length
    | none => ∃ error, seekContext (done ++ rest) path done.length changeContext = .error error := by
  cases changeContext with
  | none => exact congrArg Except.ok (by rw [List.append_nil])
  | some context =>
    rw [passContext, seekContext, seekSequence_eq]
    cases hlocated : locate [context] rest with
    | none => exact ⟨_, rfl⟩
    | some located =>
      have hfound := (locate_eq_some hlocated).2
      refine congrArg Except.ok ?_
      rw [List.length_append, List.length_append, hfound]
      rfl

theorem locateChunk_eq_some {chunk new} (h : locateChunk chunk lines = some (located, new)) :
    lines = located.before ++ located.found ++ located.after := by
  unfold locateChunk at h
  split at h
  next hlocated =>
    cases h
    exact (locate_eq_some hlocated).1
  next =>
    split at h
    · obtain ⟨other, hlocated, heq⟩ := Option.map_eq_some_iff.1 h
      cases heq
      exact (locate_eq_some hlocated).1
    · cases h

theorem seekOldLines_eq {chunk} (heof : chunk.isEndOfFile = false) (done rest : List Text) :
    seekOldLines (done ++ rest) done.length chunk =
      (locateChunk chunk rest).map fun found =>
        ⟨(done ++ found.1.before).length, found.1.found.length, found.2⟩ := by
  rw [seekOldLines, locateChunk, heof, seekSequence_eq]
  cases hlocated : locate chunk.oldLines rest with
  | some located =>
    rw [Option.map_some, Option.map_some, (locate_eq_some hlocated).2, List.length_append]
  | none =>
    dsimp only [Option.map_none]
    split
    next =>
      rw [seekSequence_eq, Option.map_map, Option.map_map]
      cases hretried : locate chunk.oldLines.dropLast rest with
      | none => rfl
      | some located =>
        refine congrArg some ?_
        dsimp only [Function.comp]
        rw [(locate_eq_some hretried).2, List.length_append]
        rfl
    next => rfl

def Replacement.splice (r : Replacement) : Splice Text := ⟨r.startIndex, r.oldLen, r.newLines⟩

/-- Replacements collected from behind `cursor` lines, against what the reference makes of the others. -/
def Agree (lines : List Text) (cursor : Nat) : Except ApplyPatchError (List Replacement) → Option (List Text) → Prop
  | .ok replacements, some rewritten => InOrder lines cursor (replacements.map Replacement.splice) ∧
      rewrite lines cursor (replacements.map Replacement.splice) = rewritten
  | .error _, none => True
  | _, _ => False

theorem agree_cons {done passed before found after new rewritten replacements}
    (hlines : lines = done ++ passed ++ before ++ found ++ after)
    (h : Agree lines (done ++ passed ++ before ++ found).length (.ok replacements) (some rewritten)) :
    Agree lines done.length (.ok (⟨(done ++ passed ++ before).length, found.length, new⟩ :: replacements))
      (some (passed ++ before ++ new ++ rewritten)) := by
  obtain ⟨horder, hrewrite⟩ := h
  have hend : (done ++ passed ++ before).length + found.length = (done ++ passed ++ before ++ found).length :=
    List.length_append.symm
  have hkept : (lines.drop done.length).take ((done ++ passed ++ before).length - done.length) = passed ++ before := by
    rw [hlines, List.append_assoc done, List.append_assoc done, List.append_assoc done, List.drop_left,
      List.length_append, Nat.add_sub_cancel_left, List.append_assoc (passed ++ before), List.take_left]
  refine ⟨⟨?_, ?_, ?_⟩, ?_⟩
  · rw [List.append_assoc, List.length_append]
    exact Nat.le_add_right ..
  · show (done ++ passed ++ before).length + found.length ≤ lines.length
    rw [hend, hlines]
    exact (List.sublist_append_left _ after).length_le
  · show InOrder lines ((done ++ passed ++ before).length + found.length) _
    rw [hend]
    exact horder
  · show (lines.drop done.length).take ((done ++ passed ++ before).length - done.length) ++
      (new ++ rewrite lines ((done ++ passed ++ before).length + found.length) _) = _
    rw [hkept, hend, hrewrite, List.append_assoc (passed ++ before)]

/-- Neither a pure addition nor a chunk for the end of the file. -/
def UpdateFileChunk.Replaces (chunk : UpdateFileChunk) : Prop := chunk.oldLines ≠ [] ∧ chunk.isEndOfFile = false

instance (chunk : UpdateFileChunk) : Decidable chunk.Replaces :=
  inferInstanceAs (Decidable (chunk.oldLines ≠ [] ∧ chunk.isEndOfFile = false))

/-- **Positions and what is left in front.** -/
theorem collectReplacements_agree (h : ∀ c ∈ chunks, c.Replaces) (done rest : List Text) :
    Agree (done ++ rest) done.length (collectReplacements (done ++ rest) path done.length chunks)
      (rewriteLines chunks rest) := by
  induction chunks generalizing done rest with
  | nil => exact ⟨trivial, List.drop_left ..⟩
  | cons chunk chunks ih =>
    obtain ⟨⟨hne, heof⟩, hrest⟩ := List.forall_mem_cons.1 h
    have hcontext := seekContext_eq path chunk.changeContext done rest
    rw [collectReplacements, rewriteLines]
    cases hpassed : passContext chunk.changeContext rest with
    | none =>
      rw [hpassed] at hcontext
      obtain ⟨error, herror⟩ := hcontext
      rw [herror]
      trivial
    | some pair =>
      obtain ⟨passed, left⟩ := pair
      rw [hpassed] at hcontext
      obtain rfl := passContext_eq_some hpassed
      rw [hcontext]
      dsimp only [bind, Except.bind, Option.bind]
      rw [if_neg hne, ← List.append_assoc, seekOldLines_eq heof]
      cases hchunk : locateChunk chunk left with
      | none => trivial
      | some pair =>
        obtain ⟨located, new⟩ := pair
        obtain rfl := locateChunk_eq_some hchunk
        have hnext := ih hrest (done ++ passed ++ located.before ++ located.found) located.after
        have hdone : (done ++ passed ++ located.before).length + located.found.length =
            (done ++ passed ++ located.before ++ located.found).length := List.length_append.symm
        rw [← List.append_assoc, ← List.append_assoc]
        dsimp only [Option.map_some]
        rw [hdone]
        generalize hlines : done ++ passed ++ located.before ++ located.found ++ located.after = lines at hnext ⊢
        cases hcollected : collectReplacements lines path (done ++ passed ++ located.before ++ located.found).length chunks with
        | error error =>
          cases hrewritten : rewriteLines chunks located.after with
          | none => trivial
          | some rewritten => rw [hcollected, hrewritten] at hnext; exact hnext
        | ok replacements =>
          cases hrewritten : rewriteLines chunks located.after with
          | none => rw [hcollected, hrewritten] at hnext; exact hnext
          | some rewritten => rw [hcollected, hrewritten] at hnext; exact agree_cons hlines.symm hnext

/-! ## Applying them -/

theorem applyReplacements_eq_foldr (lines : List Text) (replacements : List Replacement) :
    applyReplacements lines replacements = (replacements.map Replacement.splice).foldr Splice.apply lines := by
  rw [applyReplacements, List.foldl_reverse, List.foldr_map]
  rfl

/-- **The lines** are those of the reference. -/
theorem computeReplacements_eq (h : ∀ c ∈ chunks, c.Replaces) (lines : List Text) :
    match rewriteLines chunks lines with
    | some rewritten => ∃ replacements, computeReplacements lines path chunks = .ok replacements ∧
        applyReplacements lines replacements = rewritten
    | none => ∃ error, computeReplacements lines path chunks = .error error := by
  have hagree := collectReplacements_agree path h [] lines
  rw [List.nil_append, List.length_nil] at hagree
  rw [computeReplacements]
  cases hcollected : collectReplacements lines path 0 chunks with
  | error error =>
    cases hrewritten : rewriteLines chunks lines with
    | none => exact ⟨error, rfl⟩
    | some rewritten => rw [hcollected, hrewritten] at hagree; exact hagree.elim
  | ok replacements =>
    cases hrewritten : rewriteLines chunks lines with
    | none => rw [hcollected, hrewritten] at hagree; exact hagree.elim
    | some rewritten =>
      rw [hcollected, hrewritten] at hagree
      obtain ⟨horder, hrewrite⟩ := hagree
      have hsorted := horder.pairwise
      rw [List.pairwise_map] at hsorted
      refine ⟨replacements, congrArg Except.ok hsorted.insertionSort_eq, ?_⟩
      rw [applyReplacements_eq_foldr, foldr_apply horder (Nat.zero_le _), hrewrite]
      rfl

/-! ## Writing the file -/

theorem intercalate_append_nil (lines : List Text) : List.intercalate ['\n'] (lines ++ [[]]) = writeLines lines := by
  induction lines with
  | nil => rfl
  | cons line rest ih =>
    cases rest with
    | nil => simp [List.intercalate, writeLines]
    | cons next rest =>
      rw [List.cons_append, List.cons_append, List.intercalate_cons_cons, ← List.cons_append, ih]
      rfl

theorem writeLines_append (lines : List Text) (line : Text) :
    writeLines (lines ++ [line]) = writeLines lines ++ (line ++ ['\n']) := by
  rw [writeLines, List.flatMap_append, List.flatMap_singleton]
  rfl

/-- What is written has an empty last line taken for the final newline. -/
def writtenLines (lines : List Text) : Text :=
  List.intercalate ['\n'] (if lines.getLast? = some [] then lines else lines ++ [[]])

theorem writtenLines_eq_iff (lines : List Text) : writtenLines lines = writeLines lines ↔ lines.getLast? ≠ some [] := by
  rw [writtenLines]
  split
  next hlast =>
    obtain ⟨before, rfl⟩ := List.getLast?_eq_some_iff.1 hlast
    rw [intercalate_append_nil, writeLines_append]
    exact iff_of_false (fun h => by simpa using congrArg List.length h) (fun h => h hlast)
  next hlast => exact iff_of_true (intercalate_append_nil lines) hlast

variable {P : Type}

/-- `derive_new_contents` fails where the reference does, and else has its lines as the new contents. -/
def Rewrites (paths : PatchPaths P) (fs : FileSystem P) (path : P) (original : Text) (chunks : List UpdateFileChunk) : Prop :=
  (Run.deriveNewContentsFromChunks paths fs path chunks).toOption =
    (rewriteLines chunks (fileLines original)).map fun lines => (original, writeLines lines)

/-- The code has the lines of the reference, and they are written as `writtenLines` has it. -/
theorem deriveNewContents_eq (paths : PatchPaths P) {fs} {path : P} {original : Text}
    (hread : fs.readFileText path = .ok original) (h : ∀ c ∈ chunks, c.Replaces) :
    (Run.deriveNewContentsFromChunks paths fs path chunks).toOption =
      (rewriteLines chunks (fileLines original)).map fun lines => (original, writtenLines lines) := by
  have hcomputed := computeReplacements_eq (paths.nativePathString path) h (fileLines original)
  rw [Run.deriveNewContentsFromChunks, hread]
  cases hrewritten : rewriteLines chunks (fileLines original) with
  | none =>
    rw [hrewritten] at hcomputed
    obtain ⟨error, herror⟩ := hcomputed
    rw [fileLines, withoutFinalEmpty] at herror
    dsimp only [newContents]
    rw [herror]
    rfl
  | some rewritten =>
    rw [hrewritten] at hcomputed
    obtain ⟨replacements, hreplacements, happlied⟩ := hcomputed
    rw [fileLines, withoutFinalEmpty] at hreplacements happlied
    dsimp only [newContents]
    rw [hreplacements]
    dsimp only [bind, Except.bind]
    rw [happlied]
    rfl

/-- **Applying chunks and rewriting lines.** They agree unless an empty line is the last of those left. -/
theorem rewrites_iff (paths : PatchPaths P) {fs : FileSystem P} {path : P} {original : Text}
    {chunks : List UpdateFileChunk} (hread : fs.readFileText path = .ok original) (h : ∀ c ∈ chunks, c.Replaces) :
    Rewrites paths fs path original chunks ↔
      (rewriteLines chunks (fileLines original)).bind List.getLast? ≠ some [] := by
  rw [Rewrites, deriveNewContents_eq paths hread h]
  cases hrewritten : rewriteLines chunks (fileLines original) with
  | none => exact iff_of_true rfl (by decide)
  | some rewritten =>
    rw [Option.map_some, Option.map_some, Option.some_inj, Prod.mk.injEq, writtenLines_eq_iff, Option.bind_some]
    exact and_iff_right rfl

/-- A file system with one file at the root. -/
def fileOf (contents : Text) : FileSystem (List Text) where
  entries path := if path = [] then some (.file (.text contents) false) else none
  outcomes := []

/-- The chunk of `-a`, `+b` below `@@ x`. -/
def swapChunk (changeContext : Option Text) : UpdateFileChunk where
  changeContext
  oldLines := [['a']]
  newLines := [['b']]
  isEndOfFile := false

theorem rewrites_iff_swapped :
    Rewrites (posixPaths fun _ _ => []) (fileOf "a\nx\n a\nc".toList) [] "a\nx\n a\nc".toList [swapChunk (some ['x'])] ↔
      (rewriteLines [swapChunk (some ['x'])] (fileLines "a\nx\n a\nc".toList)).bind List.getLast? ≠ some [] :=
  rewrites_iff _ rfl (by decide)

/-- A blank line at the end of the file is gone. -/
theorem not_rewrites_blankEnd :
    (fileOf "a\n\n".toList).readFileText [] = .ok "a\n\n".toList ∧
      (∀ c ∈ [swapChunk none], c.Replaces) ∧
      ¬ Rewrites (posixPaths fun _ _ => []) (fileOf "a\n\n".toList) [] "a\n\n".toList [swapChunk none] := by
  refine ⟨rfl, by decide, ?_⟩
  unfold Rewrites
  decide

end Codex.Patch
