/-
What an exact delta says of the disk. Each operation of `applyHunksToFiles`
either leaves the files as replaying its recorded changes does, or clears the
exactness flag (`Faithful`). The one exception is a move onto the file's own
path: the destination is written and then removed as the source, while the
delta records an update.
-/
import Codex.PatchApply

namespace Codex.Patch

open Text

section
variable {P : Type} [DecidableEq P]

/-- What a recorded change says happened to the files. -/
def replayChange (files : P → Option FileContents) (change : AppliedPatchChange P) : P → Option FileContents :=
  match change.change with
  | .add content _ => Function.update files change.path (some (.text content))
  | .delete _ => Function.update files change.path none
  | .update none _ _ newContent => Function.update files change.path (some (.text newContent))
  | .update (some dest) _ _ newContent =>
    Function.update (Function.update files change.path none) dest (some (.text newContent))

def replay (files : P → Option FileContents) (changes : List (AppliedPatchChange P)) : P → Option FileContents :=
  changes.foldl replayChange files

/-! ## What each operation does to the files -/

namespace FileSystem

variable {fs fs' : FileSystem P} {path : P}

omit [DecidableEq P] in
theorem readFileText_ok {content : Text} (h : fs.readFileText path = .ok content) :
    fs.files path = some (.text content) := by
  rw [readFileText] at h
  split at h
  · cases h
  · split at h
    · cases h
    next heq => rw [files, heq, ← Except.ok.inj h]
    · cases h
    · cases h

theorem files_putFile (fs : FileSystem P) (path : P) (contents : FileContents) :
    (fs.putFile path contents).files = Function.update fs.files path (some contents) := by
  funext q
  by_cases hq : q = path
  · subst hq
    simp [files, putFile]
  · simp [files, putFile, Function.update_of_ne hq]

theorem files_clear (fs : FileSystem P) (path : P) :
    (fs.clear path).files = Function.update fs.files path none := by
  funext q
  by_cases hq : q = path
  · subst hq
    simp [files, clear]
  · simp [files, clear, Function.update_of_ne hq]

/-- A write changes nothing but its path, and puts its text there if it succeeds. -/
theorem files_writeFile (fs : FileSystem P) (path : P) (contents : Text) :
    ∃ left, (fs.writeFile path contents).2.files = Function.update fs.files path left ∧
      ((fs.writeFile path contents).1 = .ok () → left = some (.text contents)) := by
  have hkeep : fs.advance.files = Function.update fs.files path (fs.files path) := (Function.update_eq_self ..).symm
  rw [writeFile]
  split
  next kind changed left _ =>
    cases changed with
    | false => exact ⟨_, hkeep, fun h => by cases h⟩
    | true =>
      cases left with
      | none => exact ⟨none, files_clear .., fun h => by cases h⟩
      | some left => exact ⟨some left, files_putFile .., fun h => by cases h⟩
  next =>
    split
    · exact ⟨_, hkeep, fun h => by cases h⟩
    · exact ⟨_, files_putFile .., fun _ => rfl⟩

theorem files_createDirectory (paths : PatchPaths P) (fs : FileSystem P) (path : P) :
    (fs.createDirectory paths path).2.files = fs.files := by
  rw [createDirectory]
  split
  · rfl
  · split
    · rfl
    · funext q
      simp only [files]
      split
      next hq heq =>
        split at heq
        · cases heq
        · rw [heq]
      next hq hne =>
        split
        next contents isSymlink heq => exact absurd (by rw [if_neg (by simp [heq]), heq]) (hne contents isSymlink)
        next => rfl

theorem files_writeInContext {paths} {contents : Text}
    (h : fs.writeInContext paths path contents = (.ok (), fs')) :
    fs'.files = Function.update fs.files path (some (.text contents)) := by
  obtain ⟨left, hfiles, hok⟩ := files_writeFile fs path contents
  rw [writeInContext] at h
  split at h
  next fs₁ heq =>
    rw [heq] at hfiles hok
    rw [← (Prod.mk.inj h).2, hfiles, hok rfl]
  · cases h

theorem files_write {paths} {contents : Text}
    (h : fs.writeFileWithMissingParentRetry paths path contents = (.ok (), fs')) :
    fs'.files = Function.update fs.files path (some (.text contents)) := by
  obtain ⟨left, hfiles, hok⟩ := files_writeFile fs path contents
  rw [writeFileWithMissingParentRetry] at h
  split at h
  next fs₁ heq =>
    rw [heq] at hfiles hok
    rw [← (Prod.mk.inj h).2, hfiles, hok rfl]
  next fs₁ heq =>
    -- what the failed write left at the path, the second write replaces
    rw [heq] at hfiles
    split at h
    · rw [files_writeInContext h, hfiles, Function.update_idem]
    · split at h
      · cases h
      next parent _ _ fs₂ hdir =>
        have hsame := files_createDirectory paths fs₁ parent
        rw [hdir] at hsame
        rw [files_writeInContext h, hsame, hfiles, Function.update_idem]
  · cases h

theorem files_remove (fs : FileSystem P) (path : P) :
    (fs.remove path).2.files = Function.update fs.files path none ∨
      (fs.remove path).2.files = fs.files ∧ (fs.remove path).1 ≠ .ok () := by
  rw [remove]
  split
  next kind changed left _ =>
    cases changed with
    | false => exact .inr ⟨rfl, fun h => by cases h⟩
    | true => exact .inl (files_clear ..)
  next =>
    split
    · exact .inr ⟨rfl, fun h => by cases h⟩
    · exact .inr ⟨rfl, fun h => by cases h⟩
    · exact .inl (files_clear ..)

end FileSystem

/-! ## Faithful steps -/

/-- If the delta is exact afterwards it was before, and the files changed as the changes
recorded in between say. -/
structure Faithful (run run' : Run P) : Prop where
  of_exact : run'.delta.exact = true → run.delta.exact = true ∧
    ∃ changes, run'.delta.changes = run.delta.changes ++ changes ∧ run'.fs.files = replay run.fs.files changes

namespace Faithful

variable {run run' run'' : Run P}

theorem of_same (hd : run'.delta = run.delta) (hf : run'.fs.files = run.fs.files) : Faithful run run' := by
  refine ⟨fun hx => ⟨hd ▸ hx, [], ?_, hf⟩⟩
  rw [hd, List.append_nil]

theorem of_inexact (hx : run'.delta.exact = false) : Faithful run run' := by
  refine ⟨fun h => ?_⟩
  rw [hx] at h
  cases h

theorem trans (h : Faithful run run') (h' : Faithful run' run'') : Faithful run run'' := by
  refine ⟨fun hx => ?_⟩
  obtain ⟨hx', changes', hc', hf'⟩ := h'.of_exact hx
  obtain ⟨hx₀, changes, hc, hf⟩ := h.of_exact hx'
  refine ⟨hx₀, changes ++ changes', by rw [hc', hc, List.append_assoc], ?_⟩
  rw [hf', hf, replay, replay, replay, List.foldl_append]

theorem push {path : P} {change fs} (hf : fs.files = replayChange run.fs.files { path, change }) :
    Faithful run (Run.push { run with fs } path change) :=
  ⟨fun hx => ⟨hx, [{ path, change }], rfl, hf⟩⟩

end Faithful

namespace Run

variable {run run' : Run P} {paths : PatchPaths P} {path dest : P}

theorem advance_faithful (run : Run P) : Faithful run run.advance := .of_same rfl rfl

theorem noteExisting_faithful (run : Run P) (path : P) : Faithful run (run.noteExistingPathDeltaSupport path) := by
  rw [noteExistingPathDeltaSupport]
  split
  · split
    · exact .of_same rfl rfl
    · exact .of_inexact rfl
  · exact .of_same rfl rfl
  · exact .of_inexact rfl

theorem readOptional_faithful (run : Run P) (path : P) : Faithful run (run.readOptionalFileTextForDelta path).2 := by
  refine (noteExisting_faithful run path).trans ?_
  rw [readOptionalFileTextForDelta]
  split
  · exact .of_same rfl rfl
  · exact .of_same rfl rfl
  · exact .of_inexact rfl

/-- A successful removal takes the file away and leaves the delta to its caller. -/
theorem removeFile_ok {context : Text} {expected}
    (h : run.removeFile paths path context expected = (.ok (), run')) :
    run'.delta = run.delta ∧ run'.fs.files = Function.update run.fs.files path none := by
  rw [removeFile] at h
  split at h
  · cases h
  · split at h
    · cases h
    · split at h
      next fs heq =>
        have hfiles := FileSystem.files_remove run.advance.fs path
        rw [heq] at hfiles
        rw [← (Prod.mk.inj h).2]
        exact ⟨rfl, hfiles.resolve_right fun hr => hr.2 rfl⟩
      · cases h

/-- A failed one leaves the delta exact only if the file is as it was. -/
theorem removeFile_error {context : Text} {expected error}
    (h : run.removeFile paths path context expected = (.error error, run')) : Faithful run run' := by
  rw [removeFile] at h
  split at h
  · rw [← (Prod.mk.inj h).2]
    exact .of_same rfl rfl
  · split at h
    · rw [← (Prod.mk.inj h).2]
      exact .of_same rfl rfl
    · split at h
      · cases h
      next kind fs heq =>
        rw [← (Prod.mk.inj h).2]
        refine ⟨fun hx => ?_⟩
        obtain ⟨hx₀, hread⟩ := Bool.and_eq_true_iff.1 hx
        cases expected with
        | none => cases hread
        | some expected =>
          have hthere := FileSystem.readFileText_ok (of_decide_eq_true hread)
          have hfiles := FileSystem.files_remove run.advance.fs path
          rw [heq] at hfiles
          rcases hfiles with hgone | hsame
          · rw [hgone, Function.update_self] at hthere
            cases hthere
          · exact ⟨hx₀, [], (List.append_nil _).symm, hsame.1⟩

theorem addFile_faithful (run : Run P) (path : P) (contents : Text) :
    Faithful run (run.addFile paths path contents).2 := by
  refine (readOptional_faithful run path).trans ?_
  rw [addFile]
  dsimp only
  split
  next fs heq => exact .push (FileSystem.files_write heq)
  next => exact .of_inexact rfl

theorem deleteFile_faithful (run : Run P) (path : P) : Faithful run (run.deleteFile paths path).2 := by
  refine (noteExisting_faithful run path).trans ?_
  rw [deleteFile]
  cases hread : (run.noteExistingPathDeltaSupport path).fs.readFileText path with
  | error kind =>
    split
    next run' heq => exact .of_inexact (by rw [(removeFile_ok heq).1]; rfl)
    next error run' heq =>
      refine Faithful.trans ?_ (removeFile_error heq)
      exact .of_inexact rfl
  | ok content =>
    simp only
    split
    next run' heq =>
      obtain ⟨hdelta, hfiles⟩ := removeFile_ok heq
      refine ⟨fun hx => ⟨?_, [⟨path, .delete content⟩], by rw [push, hdelta]; rfl, hfiles⟩⟩
      rw [push, hdelta] at hx
      exact hx
    next error run' heq => exact (advance_faithful _).trans (removeFile_error heq)

theorem updateFile_faithful (run : Run P) (path : P) (original new : Text) :
    Faithful run (run.updateFile paths path original new).2 := by
  rw [updateFile]
  split
  next fs heq => exact .push (FileSystem.files_writeInContext heq)
  next => exact .of_inexact rfl

/-- Writing the destination and removing the source is the recorded move when the two differ. -/
theorem moveFile_faithful (run : Run P) (original new : Text) (hne : path ≠ dest) :
    Faithful run (run.moveFile paths path dest original new).2 := by
  refine (readOptional_faithful run dest).trans ?_
  rw [moveFile]
  dsimp only
  split
  next => exact .of_inexact rfl
  next fs heq =>
    have hwritten := FileSystem.files_write heq
    split
    next error run' hremove => exact (Faithful.push hwritten).trans (removeFile_error hremove)
    next moved hremove =>
      obtain ⟨-, hmoved⟩ := removeFile_ok hremove
      refine Faithful.push (hmoved.trans ?_)
      change Function.update fs.files path none = _
      rw [hwritten, Function.update_comm hne.symm]
      rfl

end Run

/-! ## Hunks -/

/-- The hunk moves a file onto its own path. -/
def Hunk.IsSelfMove (paths : PatchPaths P) (cwd : P) (hunk : Hunk) : Prop :=
  ∃ path dest chunks target, hunk = .updateFile path (some dest) chunks ∧
    paths.join cwd path = some target ∧ paths.join cwd dest = some target

theorem applyHunk_faithful {paths} {cwd : P} {hunk : Hunk} (hself : ¬ hunk.IsSelfMove paths cwd)
    (run : Run P) : Faithful run (applyHunk paths cwd hunk run).2 := by
  rw [applyHunk]
  split
  · exact .of_same rfl rfl
  next path hpath =>
    split
    · exact Run.addFile_faithful run path _
    · exact Run.deleteFile_faithful run path
    next source movePath chunks =>
      refine (Run.noteExisting_faithful run path).trans ?_
      dsimp only
      split
      · exact .of_same rfl rfl
      next original new _ =>
        split
        · exact (Run.advance_faithful _).trans (Run.updateFile_faithful _ path original new)
        next dest =>
          split
          · exact .of_same rfl rfl
          next target htarget =>
            refine (Run.advance_faithful _).trans (Run.moveFile_faithful _ original new ?_)
            rintro rfl
            exact hself ⟨source, dest, chunks, path, rfl, hpath, htarget⟩

/-- No hunk that is reached moves a file onto its own path. -/
def NoSelfMoves (paths : PatchPaths P) (cwd : P) : List Hunk → Run P → Prop
  | [], _ => True
  | hunk :: hunks, run => ¬ hunk.IsSelfMove paths cwd ∧
      ∀ run', applyHunk paths cwd hunk run = (.ok (), run') → NoSelfMoves paths cwd hunks run'

theorem applyHunks_faithful {paths} {cwd : P} : ∀ {hunks : List Hunk} {run : Run P}
    {affected : AffectedPaths}, NoSelfMoves paths cwd hunks run →
    Faithful run (applyHunks paths cwd hunks run affected).2
  | [], _, _, _ => .of_same rfl rfl
  | hunk :: hunks, run, affected, h => by
    have hstep := applyHunk_faithful h.1 run
    rw [applyHunks]
    split
    next error run' heq => rwa [heq] at hstep
    next run' heq =>
      rw [heq] at hstep
      exact hstep.trans (applyHunks_faithful (h.2 run' heq))

/-- **Exact deltas describe the disk**, in every run none of whose reached hunks moves a file onto its own path. -/
theorem applyHunksToFiles_replay (paths : PatchPaths P) (cwd : P) (hunks : List Hunk) (fs : FileSystem P)
    (hself : NoSelfMoves paths cwd hunks { fs })
    (hexact : (applyHunksToFiles paths cwd hunks fs).2.delta.exact = true) :
    (applyHunksToFiles paths cwd hunks fs).2.fs.files =
      replay fs.files (applyHunksToFiles paths cwd hunks fs).2.delta.changes := by
  have hfaithful : Faithful { fs } (applyHunksToFiles paths cwd hunks fs).2 := by
    rw [applyHunksToFiles]
    split
    · exact .of_same rfl rfl
    · exact applyHunks_faithful hself
  obtain ⟨-, changes, hchanges, hfiles⟩ := hfaithful.of_exact hexact
  rw [hfiles, hchanges]
  rfl

end

/-! ## A move, and a move onto the file itself -/

/-- The work directory with one file, and every operation succeeding. -/
def oneFile : FileSystem (List Text) where
  entries := Function.update (fun _ => none) ["work".toList, "a".toList] (some (.file (.text "one\n".toList) false))
  outcomes := []

def oneToTwo : UpdateFileChunk :=
  { changeContext := none, oldLines := ["one".toList], newLines := ["two".toList], isEndOfFile := false }

def moveHunk (dest : String) : Hunk := .updateFile "a".toList (some dest.toList) [oneToTwo]

/-- What `similar` renders for the change. -/
def oneToTwoDiff : Text → Text → Text := fun _ _ => "@@ -1 +1 @@\n-one\n+two\n".toList

theorem applyHunksToFiles_replay_move :
    (applyHunksToFiles (posixPaths oneToTwoDiff) ["work".toList] [moveHunk "b"] oneFile).2.delta.exact = true ∧
    (applyHunksToFiles (posixPaths oneToTwoDiff) ["work".toList] [moveHunk "b"] oneFile).2.fs.files =
      replay oneFile.files
        (applyHunksToFiles (posixPaths oneToTwoDiff) ["work".toList] [moveHunk "b"] oneFile).2.delta.changes := by
  have hexact : (applyHunksToFiles (posixPaths oneToTwoDiff) ["work".toList] [moveHunk "b"] oneFile).2.delta.exact =
      true := by decide +kernel
  refine ⟨hexact, applyHunksToFiles_replay _ _ _ _ ⟨?_, fun _ _ => trivial⟩ hexact⟩
  rintro ⟨path, dest, chunks, target, h, hpath, hdest⟩
  obtain ⟨rfl, hd, -⟩ := Hunk.updateFile.inj h
  obtain rfl := Option.some.inj hd
  exact absurd (hpath.trans hdest.symm) (by decide +kernel)

/-- A move of `a` onto `a` reports an exact update of `a` and leaves no file there. -/
theorem applyHunksToFiles_selfMove :
    (applyHunksToFiles (posixPaths oneToTwoDiff) ["work".toList] [moveHunk "a"] oneFile).2.delta.exact = true ∧
    (applyHunksToFiles (posixPaths oneToTwoDiff) ["work".toList] [moveHunk "a"] oneFile).2.fs.files ≠
      replay oneFile.files
        (applyHunksToFiles (posixPaths oneToTwoDiff) ["work".toList] [moveHunk "a"] oneFile).2.delta.changes := by
  refine ⟨by decide +kernel, fun h => ?_⟩
  have hat := congrFun h ["work".toList, "a".toList]
  exact absurd hat (by decide +kernel)

end Codex.Patch
