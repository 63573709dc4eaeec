/-
What is verified is what is applied, for hunks that keep out of each other's
way. Verification evaluates every hunk against the file system as it is;
application runs them in order. The two agree as long as no hunk updates a file
that an earlier one wrote, no move goes to a path an earlier hunk names, and
nothing later names the target of a move or writes its source again.
-/
import Codex.PatchDelta

namespace Codex.Patch

open Text

section
variable {P : Type} [DecidableEq P]

/-! ## What the verified changes announce -/

/-- The content a change announces for a path (`some none` is no file), or none if it is
silent about it. -/
def announce (path : P) (change : ApplyPatchFileChange P) (q : P) : Option (Option Text) :=
  match change with
  | .add content => if q = path then some (some content) else none
  | .delete _ => if q = path then some none else none
  | .update _ none newContent => if q = path then some (some newContent) else none
  | .update _ (some dest) newContent =>
    if q = dest then some (some newContent) else if q = path then some none else none

def Announces (changes : AList fun _ : P => ApplyPatchFileChange P) (q : P) (content : Option Text) : Prop :=
  ∃ path change, changes.lookup path = some change ∧ announce path change q = some content

/-- Every announced path has its announced content, and every other path its initial one. -/
def AsAnnounced (changes : AList fun _ : P => ApplyPatchFileChange P) (initial final : P → Option FileContents) : Prop :=
  (∀ q content, Announces changes q content → final q = content.map .text) ∧
    ∀ q, (∀ content, ¬ Announces changes q content) → final q = initial q

/-! ## What hunks do to paths -/

namespace Hunk

variable (paths : PatchPaths P) (cwd : P)

def Writes (hunk : Hunk) (q : P) : Prop :=
  match hunk with
  | addFile path _ => paths.join cwd path = some q
  | deleteFile _ => False
  | updateFile path none _ => paths.join cwd path = some q
  | updateFile _ (some dest) _ => paths.join cwd dest = some q

/-- The hunk takes the file at the path away. -/
def Removes (hunk : Hunk) (q : P) : Prop :=
  match hunk with
  | addFile .. => False
  | deleteFile path => paths.join cwd path = some q
  | updateFile _ none _ => False
  | updateFile path (some _) _ => paths.join cwd path = some q

def Touches (hunk : Hunk) (q : P) : Prop := hunk.Writes paths cwd q ∨ hunk.Removes paths cwd q

/-- The hunk updates the file at the path, in place or by a move. -/
def Updates (hunk : Hunk) (q : P) : Prop :=
  match hunk with
  | updateFile path _ _ => paths.join cwd path = some q
  | _ => False

def MovesTo (hunk : Hunk) (q : P) : Prop :=
  match hunk with
  | updateFile _ (some dest) _ => paths.join cwd dest = some q
  | _ => False

/-- The later hunk keeps out of the earlier one's way. -/
structure Compatible (earlier later : Hunk) : Prop where
  update : ∀ q, later.Updates paths cwd q → ¬ earlier.Writes paths cwd q
  moveTo : ∀ q, later.MovesTo paths cwd q → ¬ earlier.Touches paths cwd q
  moved : ∀ dest, earlier.MovesTo paths cwd dest → ¬ later.Touches paths cwd dest ∧
    ∀ source, earlier.Removes paths cwd source → ¬ later.Writes paths cwd source

end Hunk

/-- No move is onto its own path, and every hunk keeps out of the way of those before it. -/
structure Separate (paths : PatchPaths P) (cwd : P) (hunks : List Hunk) : Prop where
  noSelfMove : ∀ hunk ∈ hunks, ¬ hunk.IsSelfMove paths cwd
  pairwise : hunks.Pairwise (Hunk.Compatible paths cwd)

/-! ## One hunk, verified and applied -/

variable {paths : PatchPaths P} {cwd : P}

omit [DecidableEq P] in
theorem deriveNewContents_ok {fs : FileSystem P} {path : P} {chunks : List UpdateFileChunk} {original new : Text}
    (h : Run.deriveNewContentsFromChunks paths fs path chunks = .ok (original, new)) :
    fs.files path = some (.text original) ∧ newContents (paths.nativePathString path) original chunks = .ok new := by
  rw [Run.deriveNewContentsFromChunks] at h
  split at h
  · cases h
  next original' hread =>
    cases hnew : newContents (paths.nativePathString path) original' chunks with
    | error e => rw [hnew] at h; cases h
    | ok new' =>
      rw [hnew] at h
      obtain ⟨rfl, rfl⟩ := Prod.mk.inj (Except.ok.inj h)
      exact ⟨FileSystem.readFileText_ok hread, hnew⟩

theorem remove_ok_files {fs fs' : FileSystem P} {path : P} (h : fs.remove path = (.ok (), fs')) :
    fs.files path ≠ none := by
  rw [FileSystem.remove] at h
  split at h
  · cases h
  · split at h
    · cases h
    · cases h
    next heq => simp [FileSystem.files, heq]

variable {run run' : Run P} {new : Text} {q : P} {content : Option Text} {k : P}
  {old : ApplyPatchFileChange P} {source : Text}

theorem removeFile_ok_files {path : P} {context : Text} {expected : Option Text}
    (h : run.removeFile paths path context expected = (.ok (), run')) : run.fs.files path ≠ none := by
  rw [Run.removeFile] at h
  split at h
  · cases h
  · split at h
    · cases h
    · split at h
      next heq => exact (remove_ok_files heq : run.advance.fs.files path ≠ none)
      · cases h

omit [DecidableEq P] in
theorem files_noteExisting (run : Run P) (path : P) : (run.noteExistingPathDeltaSupport path).fs.files = run.fs.files := by
  rw [Run.noteExistingPathDeltaSupport]
  split
  · split <;> rfl
  · rfl
  · rfl

omit [DecidableEq P] in
theorem files_readOptional (run : Run P) (path : P) :
    (run.readOptionalFileTextForDelta path).2.fs.files = run.fs.files := by
  rw [← files_noteExisting run path, Run.readOptionalFileTextForDelta]
  split <;> rfl

theorem files_addFile {path : P} {contents : Text} (h : run.addFile paths path contents = (.ok (), run')) :
    run'.fs.files = Function.update run.fs.files path (some (.text contents)) := by
  rw [Run.addFile] at h
  dsimp only at h
  split at h
  next fs heq =>
    rw [← (Prod.mk.inj h).2, ← files_readOptional run path]
    exact FileSystem.files_write heq
  · cases h

theorem files_deleteFile {path : P} (h : run.deleteFile paths path = (.ok (), run')) :
    run.fs.files path ≠ none ∧ run'.fs.files = Function.update run.fs.files path none := by
  rw [Run.deleteFile] at h
  rw [← files_noteExisting run path]
  split at h
  next moved heq =>
    have hthere := removeFile_ok_files heq
    have hfiles := (Run.removeFile_ok heq).2
    rw [← (Prod.mk.inj h).2]
    cases hread : (run.noteExistingPathDeltaSupport path).fs.readFileText path with
    | ok content => rw [hread] at hthere hfiles; exact ⟨hthere, hfiles⟩
    | error kind => rw [hread] at hthere hfiles; exact ⟨hthere, hfiles⟩
  · cases h

theorem files_updateFile {path : P} {original : Text}
    (h : run.updateFile paths path original new = (.ok (), run')) :
    run'.fs.files = Function.update run.fs.files path (some (.text new)) := by
  rw [Run.updateFile] at h
  split at h
  next heq =>
    rw [← (Prod.mk.inj h).2]
    exact FileSystem.files_writeInContext heq
  · cases h

theorem files_moveFile {path dest : P} {original : Text}
    (h : run.moveFile paths path dest original new = (.ok (), run')) :
    run'.fs.files = Function.update (Function.update run.fs.files dest (some (.text new))) path none := by
  rw [Run.moveFile] at h
  dsimp only at h
  split at h
  · cases h
  next fs heq =>
    split at h
    · cases h
    next moved hremove =>
      rw [← (Prod.mk.inj h).2, ← files_readOptional run dest, ← FileSystem.files_write heq]
      exact (Run.removeFile_ok hremove).2

/-- What an applied hunk has done, by its kind. -/
def Applied (paths : PatchPaths P) (cwd : P) (hunk : Hunk) (path : P) (files files' : P → Option FileContents) : Prop :=
  match hunk with
  | .addFile _ contents => files' = Function.update files path (some (.text contents))
  | .deleteFile _ => files path ≠ none ∧ files' = Function.update files path none
  | .updateFile _ none chunks => ∃ original new, files path = some (.text original) ∧
      newContents (paths.nativePathString path) original chunks = .ok new ∧
      files' = Function.update files path (some (.text new))
  | .updateFile _ (some dest) chunks => ∃ original new target, files path = some (.text original) ∧
      newContents (paths.nativePathString path) original chunks = .ok new ∧ paths.join cwd dest = some target ∧
      files' = Function.update (Function.update files target (some (.text new))) path none

theorem applyHunk_applied {hunk : Hunk} (h : applyHunk paths cwd hunk run = (.ok (), run')) :
    ∃ path, hunk.resolvePath paths cwd = some path ∧ Applied paths cwd hunk path run.fs.files run'.fs.files := by
  rw [applyHunk] at h
  split at h
  · cases h
  next path hpath =>
    refine ⟨path, hpath, ?_⟩
    cases hunk with
    | addFile source contents => exact files_addFile h
    | deleteFile source => exact files_deleteFile h
    | updateFile source movePath chunks =>
      dsimp only at h
      split at h
      · cases h
      next original new hderive =>
        obtain ⟨hread, hnew⟩ := deriveNewContents_ok hderive
        rw [files_noteExisting] at hread
        have hsame : (run.noteExistingPathDeltaSupport path).advance.fs.files = run.fs.files := files_noteExisting run path
        cases movePath with
        | none => exact ⟨original, new, hread, hnew, by rw [files_updateFile h, hsame]⟩
        | some dest =>
          dsimp only at h
          split at h
          · cases h
          next target htarget => exact ⟨original, new, target, hread, hnew, htarget, by rw [files_moveFile h, hsame]⟩

/-- The entry a verified hunk inserts, by its kind. -/
def Verified (paths : PatchPaths P) (cwd : P) (hunk : Hunk) (path : P) (files : P → Option FileContents)
    (change : ApplyPatchFileChange P) : Prop :=
  match hunk with
  | .addFile _ contents => change = .add contents
  | .deleteFile _ => ∃ content, change = .delete content
  | .updateFile _ none chunks => ∃ original new diff, files path = some (.text original) ∧
      newContents (paths.nativePathString path) original chunks = .ok new ∧ change = .update diff none new
  | .updateFile _ (some dest) chunks => ∃ original new diff target, files path = some (.text original) ∧
      newContents (paths.nativePathString path) original chunks = .ok new ∧ paths.join cwd dest = some target ∧
      change = .update diff (some target) new

omit [DecidableEq P] in
theorem verifyHunk_verified {fs : FileSystem P} {hunk : Hunk} {path : P} {change : ApplyPatchFileChange P}
    (h : verifyHunk paths cwd fs hunk = .ok (path, change)) :
    hunk.resolvePath paths cwd = some path ∧ Verified paths cwd hunk path fs.files change := by
  rw [verifyHunk] at h
  split at h
  · cases h
  next path' hpath =>
    cases hunk with
    | addFile source contents =>
      obtain ⟨rfl, rfl⟩ := Prod.mk.inj (Except.ok.inj h)
      exact ⟨hpath, rfl⟩
    | deleteFile source =>
      dsimp only at h
      split at h
      · cases h
      next content hread =>
        obtain ⟨rfl, rfl⟩ := Prod.mk.inj (Except.ok.inj h)
        exact ⟨hpath, content, rfl⟩
    | updateFile source movePath chunks =>
      dsimp only at h
      split at h
      · cases h
      next original new hderive =>
        obtain ⟨hread, hnew⟩ := deriveNewContents_ok hderive
        cases movePath with
        | none =>
          obtain ⟨rfl, rfl⟩ := Prod.mk.inj (Except.ok.inj h)
          exact ⟨hpath, original, new, _, hread, hnew, rfl⟩
        | some dest =>
          dsimp only at h
          split at h
          · cases h
          next target htarget =>
            obtain ⟨rfl, rfl⟩ := Prod.mk.inj (Except.ok.inj h)
            exact ⟨hpath, original, new, _, target, hread, hnew, htarget, rfl⟩

/-! ## The changes so far and the files so far -/

/-- After some hunks: paths none of them names are as before, every announcement holds, the
named paths are the announced ones, and a path that was named but never written has no file. -/
structure Tracks (paths : PatchPaths P) (cwd : P) (initial : P → Option FileContents) (done : List Hunk)
    (changes : AList fun _ : P => ApplyPatchFileChange P) (files : P → Option FileContents) : Prop where
  untouched : ∀ q, (∀ h ∈ done, ¬ h.Touches paths cwd q) → files q = initial q
  announced : ∀ q content, Announces changes q content → files q = content.map .text
  touched : ∀ q, (∃ content, Announces changes q content) ↔ ∃ h ∈ done, h.Touches paths cwd q
  removed : ∀ q, (∃ h ∈ done, h.Touches paths cwd q) → (∀ h ∈ done, ¬ h.Writes paths cwd q) → files q = none
  moves : ∀ path dest diff new, changes.lookup path = some (.update diff (some dest) new) →
    ∃ h ∈ done, h.MovesTo paths cwd dest ∧ h.Removes paths cwd path

theorem Tracks.nil (initial : P → Option FileContents) : Tracks paths cwd initial [] ∅ initial where
  untouched _ _ := rfl
  announced q content h := by
    obtain ⟨path, change, hl, -⟩ := h
    cases hl
  touched q := by
    refine ⟨fun ⟨content, path, change, hl, _⟩ => ?_, fun ⟨h, hh, _⟩ => by cases hh⟩
    cases hl
  removed q h _ := by
    obtain ⟨h, hh, -⟩ := h
    cases hh
  moves path dest diff new hl := by
    cases hl

/-- What a hunk must do, to the files and to the announcements, for both to stay in step. -/
structure Advances (paths : PatchPaths P) (cwd : P) (changes : AList fun _ : P => ApplyPatchFileChange P)
    (files files' : P → Option FileContents) (hunk : Hunk) (path : P) (change : ApplyPatchFileChange P) : Prop where
  written : ∀ q content, announce path change q = some content → files' q = content.map .text
  kept : ∀ q, announce path change q = none → files' q = files q
  names : ∀ q, (∃ content, announce path change q = some content) ↔ hunk.Touches paths cwd q
  removes : ∀ q content, announce path change q = some content → ¬ hunk.Writes paths cwd q → content = none
  fresh : ∀ k old q content, k ≠ path → changes.lookup k = some old → announce k old q = some content →
    announce path change q = none
  replaces : ∀ old q content, changes.lookup path = some old → announce path old q = some content →
    ∃ content', announce path change q = some content'
  moves : ∀ dest diff new, change = .update diff (some dest) new →
    hunk.MovesTo paths cwd dest ∧ hunk.Removes paths cwd path

theorem announces_insert {changes : AList fun _ : P => ApplyPatchFileChange P} {path : P} {change} :
    Announces (changes.insert path change) q content ↔ announce path change q = some content ∨
      ∃ k old, k ≠ path ∧ changes.lookup k = some old ∧ announce k old q = some content := by
  constructor
  · rintro ⟨k, old, hl, ha⟩
    by_cases hk : k = path
    · subst hk
      rw [AList.lookup_insert] at hl
      obtain rfl := Option.some.inj hl
      exact .inl ha
    · rw [AList.lookup_insert_ne hk] at hl
      exact .inr ⟨k, old, hk, hl, ha⟩
  · rintro (ha | ⟨k, old, hk, hl, ha⟩)
    · exact ⟨path, change, AList.lookup_insert _, ha⟩
    · exact ⟨k, old, by rw [AList.lookup_insert_ne hk]; exact hl, ha⟩

variable {initial files files' : P → Option FileContents} {done : List Hunk} {hunk : Hunk} {path : P}
  {changes : AList fun _ : P => ApplyPatchFileChange P} {change : ApplyPatchFileChange P}

theorem Tracks.snoc (ht : Tracks paths cwd initial done changes files)
    (ha : Advances paths cwd changes files files' hunk path change) :
    Tracks paths cwd initial (done ++ [hunk]) (changes.insert path change) files' where
  untouched q hq := by
    have hnone : announce path change q = none := by
      rw [Option.eq_none_iff_forall_ne_some]
      intro content hc
      exact hq hunk (by simp) ((ha.names q).1 ⟨content, hc⟩)
    rw [ha.kept q hnone]
    exact ht.untouched q fun h hh => hq h (by simp [hh])
  announced q content h := by
    rcases announces_insert.1 h with hnew | ⟨k, old, hk, hl, hold⟩
    · exact ha.written q content hnew
    · rw [ha.kept q (ha.fresh k old q content hk hl hold)]
      exact ht.announced q content ⟨k, old, hl, hold⟩
  touched q := by
    constructor
    · rintro ⟨content, h⟩
      rcases announces_insert.1 h with hnew | ⟨k, old, -, hl, hold⟩
      · exact ⟨hunk, by simp, (ha.names q).1 ⟨content, hnew⟩⟩
      · obtain ⟨h', hh', ht'⟩ := (ht.touched q).1 ⟨content, k, old, hl, hold⟩
        exact ⟨h', by simp [hh'], ht'⟩
    · rintro ⟨h, hh, hq⟩
      rcases List.mem_append.1 hh with hdone | hlast
      · obtain ⟨content, k, old, hl, hold⟩ := (ht.touched q).2 ⟨h, hdone, hq⟩
        by_cases hk : k = path
        · subst hk
          obtain ⟨content', hc⟩ := ha.replaces old q content hl hold
          exact ⟨content', announces_insert.2 (.inl hc)⟩
        · exact ⟨content, announces_insert.2 (.inr ⟨k, old, hk, hl, hold⟩)⟩
      · obtain rfl := List.mem_singleton.1 hlast
        obtain ⟨content, hc⟩ := (ha.names q).2 hq
        exact ⟨content, announces_insert.2 (.inl hc)⟩
  removed q hq hw := by
    cases hc : announce path change q with
    | some content =>
      rw [ha.written q content hc, ha.removes q content hc (hw hunk (by simp))]
      rfl
    | none =>
      rw [ha.kept q hc]
      refine ht.removed q ?_ fun h hh => hw h (by simp [hh])
      obtain ⟨h, hh, htouch⟩ := hq
      rcases List.mem_append.1 hh with hdone | hlast
      · exact ⟨h, hdone, htouch⟩
      · obtain rfl := List.mem_singleton.1 hlast
        obtain ⟨content, hsome⟩ := (ha.names q).2 htouch
        rw [hc] at hsome
        cases hsome
  moves k dest diff new hl := by
    by_cases hk : k = path
    · subst hk
      rw [AList.lookup_insert] at hl
      exact ⟨hunk, by simp, ha.moves dest diff new (Option.some.inj hl)⟩
    · rw [AList.lookup_insert_ne hk] at hl
      obtain ⟨h, hh, hm⟩ := ht.moves k dest diff new hl
      exact ⟨h, by simp [hh], hm⟩

/-! ## Each kind of hunk keeps in step -/

omit [DecidableEq P] in
theorem joins_eq {a b : P} {p : Option P} (ha : p = some a) (hb : p = some b) : a = b :=
  Option.some.inj (ha.symm.trans hb)

/-- An entry under another key that announces `path` is a move there. -/
theorem announce_other (hk : k ≠ q)
    (h : announce k old q = some content) : ∃ diff new, old = .update diff (some q) new := by
  cases old with
  | add c => rw [announce, if_neg hk.symm] at h; cases h
  | delete c => rw [announce, if_neg hk.symm] at h; cases h
  | update diff dest new =>
    cases dest with
    | none => rw [announce, if_neg hk.symm] at h; cases h
    | some dest =>
      simp only [announce] at h
      split at h
      next heq => exact ⟨diff, new, by rw [heq]⟩
      next => rw [if_neg hk.symm] at h; cases h

/-- An entry that announces more than its key is a move. -/
theorem announce_beyond
    (h : announce k old q = some content) : q = k ∨ ∃ diff dest new, old = .update diff (some dest) new := by
  by_cases hk : k = q
  · exact .inl hk.symm
  · obtain ⟨diff, new, rfl⟩ := announce_other hk h
    exact .inr ⟨diff, q, new, rfl⟩

theorem exists_announce_self (path : P) (old : ApplyPatchFileChange P) : ∃ content, announce path old path = some content := by
  cases old with
  | add c => exact ⟨some c, if_pos rfl⟩
  | delete c => exact ⟨none, if_pos rfl⟩
  | update diff dest new =>
    cases dest with
    | none => exact ⟨some new, if_pos rfl⟩
    | some dest =>
      by_cases h : path = dest
      · exact ⟨some new, if_pos h⟩
      · exact ⟨none, by simp [announce, h]⟩

theorem advances_inPlace (hann : ∀ q, announce path change q = if q = path then some content else none)
    (htouches : ∀ q, hunk.Touches paths cwd q ↔ q = path) (hwrites : ¬ hunk.Writes paths cwd path → content = none)
    (hfresh : ∀ k old c, k ≠ path → changes.lookup k = some old → announce k old path ≠ some c)
    (hreplaces : ∀ old q c, changes.lookup path = some old → announce path old q = some c → q = path)
    (hmove : ∀ dest diff new, change ≠ .update diff (some dest) new) :
    Advances paths cwd changes files (Function.update files path (content.map .text)) hunk path change where
  written q c h := by
    rw [hann] at h
    split at h
    next hq => rw [hq, Function.update_self, Option.some.inj h]
    next => cases h
  kept q h := by
    refine Function.update_of_ne ?_ _ _
    rintro rfl
    simp [hann] at h
  names q := by
    rw [htouches, hann]
    split <;> simp_all
  removes q c h hw := by
    rw [hann] at h
    split at h
    next hq =>
      rw [← Option.some.inj h]
      exact hwrites (hq ▸ hw)
    next => cases h
  fresh k old q c hk hl hold := by
    rw [hann, if_neg]
    rintro rfl
    exact hfresh k old c hk hl hold
  replaces old q c hl hold := ⟨content, by rw [hann, if_pos (hreplaces old q c hl hold)]⟩
  moves dest diff new h := absurd h (hmove dest diff new)

variable (ht : Tracks paths cwd initial done changes files)
include ht

theorem not_announced_of_untouched
    (hq : ∀ h ∈ done, ¬ h.Touches paths cwd q) (hl : changes.lookup k = some old) :
    announce k old q ≠ some content := by
  intro hold
  obtain ⟨h, hh, htouch⟩ := (ht.touched q).1 ⟨content, k, old, hl, hold⟩
  exact hq h hh htouch

theorem not_entered_of_untouched (hq : ∀ h ∈ done, ¬ h.Touches paths cwd path) :
    changes.lookup path ≠ some old := by
  intro hl
  obtain ⟨content, hself⟩ := exists_announce_self path old
  exact not_announced_of_untouched ht hq hl hself

variable (hc : ∀ h ∈ done, h.Compatible paths cwd hunk)
include hc

/-- A path a later hunk names is not the target of a move. -/
theorem fresh_of_touches (hq : hunk.Touches paths cwd q) (hk : k ≠ q) (hl : changes.lookup k = some old) :
    announce k old q ≠ some content := by
  intro hold
  obtain ⟨diff, new, rfl⟩ := announce_other hk hold
  obtain ⟨h, hh, hm, -⟩ := ht.moves k q diff new hl
  exact ((hc h hh).moved q hm).1 hq

/-- An updated file is one no earlier hunk names: it was not written, and had it been removed
there would be nothing to update. -/
theorem untouched_of_updates (hu : hunk.Updates paths cwd q) (hfile : files q ≠ none) :
    ∀ h ∈ done, ¬ h.Touches paths cwd q := by
  intro h hh htouch
  exact hfile (ht.removed q ⟨h, hh, htouch⟩ fun h' hh' => (hc h' hh').update q hu)

theorem advances_addFile {contents : Text} (hhunk : hunk = .addFile source contents)
    (hpath : paths.join cwd source = some path) :
    Advances paths cwd changes files (Function.update files path (some (.text contents))) hunk path (.add contents) := by
  have hwrites : hunk.Writes paths cwd path := by
    rw [hhunk]
    exact hpath
  have htouches (q : P) : hunk.Touches paths cwd q ↔ q = path := by
    subst hhunk
    exact ⟨fun h => h.elim (fun hw => joins_eq hw hpath) False.elim, fun h => h ▸ .inl hpath⟩
  change Advances paths cwd changes files (Function.update files path ((some contents).map .text)) hunk path _
  refine advances_inPlace (fun q => rfl) htouches (fun h => absurd hwrites h)
    (fun k old c hk hl => fresh_of_touches ht hc ((htouches path).2 rfl) hk hl) ?_ (fun _ _ _ h => by cases h)
  intro old q c hl hold
  rcases announce_beyond hold with hq | ⟨diff, dest, new, rfl⟩
  · exact hq
  · obtain ⟨h, hh, hm, hr⟩ := ht.moves path dest diff new hl
    exact absurd hwrites (((hc h hh).moved dest hm).2 path hr)

theorem advances_deleteFile {content : Text} (hhunk : hunk = .deleteFile source)
    (hpath : paths.join cwd source = some path) (hfile : files path ≠ none) :
    Advances paths cwd changes files (Function.update files path none) hunk path (.delete content) := by
  have htouches (q : P) : hunk.Touches paths cwd q ↔ q = path := by
    subst hhunk
    exact ⟨fun h => h.elim False.elim fun hr => joins_eq hr hpath, fun h => h ▸ .inr hpath⟩
  refine advances_inPlace (fun q => rfl) htouches (fun _ => rfl)
    (fun k old c hk hl => fresh_of_touches ht hc ((htouches path).2 rfl) hk hl) ?_ (fun _ _ _ h => by cases h)
  -- had the replaced entry been a move, the file would be gone already
  intro old q c hl hold
  rcases announce_beyond hold with hq | ⟨diff, dest, new, rfl⟩
  · exact hq
  · obtain ⟨h, hh, hm, -⟩ := ht.moves path dest diff new hl
    have hne : path ≠ dest := by
      rintro rfl
      exact ((hc h hh).moved path hm).1 ((htouches path).2 rfl)
    have hgone := ht.announced path none ⟨path, _, hl, by simp [announce, hne]⟩
    exact absurd hgone hfile

theorem advances_updateFile {diff : Text} {chunks}
    (hhunk : hunk = .updateFile source none chunks) (hpath : paths.join cwd source = some path)
    (hfile : files path ≠ none) :
    Advances paths cwd changes files (Function.update files path (some (.text new))) hunk path (.update diff none new) := by
  have hwrites : hunk.Writes paths cwd path := by
    rw [hhunk]
    exact hpath
  have htouches (q : P) : hunk.Touches paths cwd q ↔ q = path := by
    subst hhunk
    exact ⟨fun h => h.elim (fun hw => joins_eq hw hpath) False.elim, fun h => h ▸ .inl hpath⟩
  have hun := untouched_of_updates ht hc (by rw [hhunk]; exact hpath) hfile
  change Advances paths cwd changes files (Function.update files path ((some new).map .text)) hunk path _
  exact advances_inPlace (fun q => rfl) htouches (fun h => absurd hwrites h)
    (fun k old c _ hl => not_announced_of_untouched ht hun hl)
    (fun old q c hl _ => absurd hl (not_entered_of_untouched ht hun)) (fun _ _ _ h => by cases h)

theorem advances_moveFile {dest diff : Text} {target : P} {chunks}
    (hhunk : hunk = .updateFile source (some dest) chunks) (hpath : paths.join cwd source = some path)
    (htarget : paths.join cwd dest = some target) (hfile : files path ≠ none) (hne : path ≠ target) :
    Advances paths cwd changes files (Function.update (Function.update files target (some (.text new))) path none) hunk path
      (.update diff (some target) new) := by
  have hwrites (q : P) : hunk.Writes paths cwd q ↔ q = target := by
    rw [hhunk]
    exact ⟨fun h => joins_eq h htarget, fun h => h ▸ htarget⟩
  have hremoves (q : P) : hunk.Removes paths cwd q ↔ q = path := by
    rw [hhunk]
    exact ⟨fun h => joins_eq h hpath, fun h => h ▸ hpath⟩
  have hun := untouched_of_updates ht hc (by rw [hhunk]; exact hpath) hfile
  have hmoves : hunk.MovesTo paths cwd target := by rw [hhunk]; exact htarget
  have hunTarget : ∀ h ∈ done, ¬ h.Touches paths cwd target := fun h hh => (hc h hh).moveTo target hmoves
  refine ⟨?_, ?_, ?_, ?_, ?_, ?_, ?_⟩
  · intro q content h
    simp only [announce] at h
    split at h
    next hq => rw [hq, Function.update_of_ne hne.symm, Function.update_self, ← Option.some.inj h]; rfl
    next =>
      split at h
      next hq => rw [hq, Function.update_self, ← Option.some.inj h]; rfl
      next => cases h
  · intro q h
    simp only [announce] at h
    by_cases hq : q = target
    · simp [hq] at h
    · by_cases hq' : q = path
      · simp [hq', hne] at h
      · rw [Function.update_of_ne hq', Function.update_of_ne hq]
  · intro q
    rw [Hunk.Touches, hwrites, hremoves]
    simp only [announce]
    by_cases hq : q = target
    · simp [hq]
    · by_cases hq' : q = path
      · simp [hq', hne]
      · simp [hq, hq']
  · intro q content h hw
    rw [hwrites] at hw
    simp only [announce, if_neg hw] at h
    split at h
    · exact (Option.some.inj h).symm
    · cases h
  · intro k old q content _ hl hold
    have hq : q ≠ target := by
      rintro rfl
      exact not_announced_of_untouched ht hunTarget hl hold
    have hq' : q ≠ path := by
      rintro rfl
      exact not_announced_of_untouched ht hun hl hold
    simp [announce, hq, hq']
  · intro old q content hl _
    exact absurd hl (not_entered_of_untouched ht hun)
  · intro dest' diff' new' h
    obtain ⟨-, hd, -⟩ := ApplyPatchFileChange.update.inj h
    obtain rfl := Option.some.inj hd
    exact ⟨hmoves, (hremoves path).2 rfl⟩

/-- A hunk that is verified on the initial files and applied to the present ones keeps both in step. -/
theorem advances_hunk {path' : P} (hself : ¬ hunk.IsSelfMove paths cwd)
    (hresolve : hunk.resolvePath paths cwd = some path) (hv : Verified paths cwd hunk path initial change)
    (hresolve' : hunk.resolvePath paths cwd = some path') (ha : Applied paths cwd hunk path' files files') :
    Advances paths cwd changes files files' hunk path change := by
  obtain rfl := joins_eq hresolve hresolve'
  cases hunk with
  | addFile source contents =>
    obtain rfl := ha
    obtain rfl := hv
    exact advances_addFile ht hc rfl hresolve
  | deleteFile source =>
    obtain ⟨content, rfl⟩ := hv
    obtain ⟨hfile, rfl⟩ := ha
    exact advances_deleteFile ht hc rfl hresolve hfile
  | updateFile source movePath chunks =>
    cases movePath with
    | none =>
      obtain ⟨original, new, diff, hread, hnew, rfl⟩ := hv
      obtain ⟨original', new', hread', hnew', rfl⟩ := ha
      have hfile : files path ≠ none := by rw [hread']; exact Option.some_ne_none _
      have hsame := ht.untouched path (untouched_of_updates ht hc hresolve hfile)
      rw [hread', hread] at hsame
      obtain rfl := FileContents.text.inj (Option.some.inj hsame)
      obtain rfl := Except.ok.inj (hnew.symm.trans hnew')
      exact advances_updateFile ht hc rfl hresolve hfile
    | some dest =>
      obtain ⟨original, new, diff, target, hread, hnew, htarget, rfl⟩ := hv
      obtain ⟨original', new', target', hread', hnew', htarget', rfl⟩ := ha
      obtain rfl := joins_eq htarget htarget'
      have hfile : files path ≠ none := by rw [hread']; exact Option.some_ne_none _
      have hsame := ht.untouched path (untouched_of_updates ht hc hresolve hfile)
      rw [hread', hread] at hsame
      obtain rfl := FileContents.text.inj (Option.some.inj hsame)
      obtain rfl := Except.ok.inj (hnew.symm.trans hnew')
      refine advances_moveFile ht hc rfl hresolve htarget hfile ?_
      rintro rfl
      exact hself ⟨source, dest, chunks, path, rfl, hresolve, htarget⟩

omit ht hc

/-! ## Whole patches -/

theorem tracks_hunks : ∀ {hunks done : List Hunk} {fs : FileSystem P} 
    {changes changes' : AList fun _ : P => ApplyPatchFileChange P} {run run' : Run P}
    {affected affected' : AffectedPaths}, fs.files = initial →
    Tracks paths cwd initial done changes run.fs.files →
    (∀ hunk ∈ hunks, ¬ hunk.IsSelfMove paths cwd) → (done ++ hunks).Pairwise (Hunk.Compatible paths cwd) →
    verifyHunks paths cwd fs hunks changes = .ok changes' →
    applyHunks paths cwd hunks run affected = (.ok affected', run') →
    Tracks paths cwd initial (done ++ hunks) changes' run'.fs.files
  | [], done, fs, changes, changes', run, run', affected, affected', _, ht, _, _, hv, ha => by
    rw [verifyHunks] at hv
    rw [applyHunks] at ha
    rw [List.append_nil, ← Except.ok.inj hv, ← (Prod.mk.inj ha).2]
    exact ht
  | hunk :: hunks, done, fs, changes, changes', run, run', affected, affected', hfs, ht, hself, hpair, hv, ha => by
    rw [verifyHunks] at hv
    rw [applyHunks] at ha
    split at hv
    · cases hv
    next path change hhunk =>
      split at ha
      · cases ha
      next run₁ happly =>
        obtain ⟨hresolve, hverified⟩ := verifyHunk_verified hhunk
        obtain ⟨path', hresolve', happlied⟩ := applyHunk_applied happly
        rw [hfs] at hverified
        have hc : ∀ h ∈ done, h.Compatible paths cwd hunk := fun h hh =>
          (List.pairwise_append.1 hpair).2.2 h hh hunk (List.mem_cons_self ..)
        have hstep := ht.snoc (advances_hunk ht hc (hself hunk (by simp)) hresolve hverified hresolve' happlied)
        have hadvance : (if hunk.reads then fs.advance else fs).files = initial := by
          split <;> exact hfs
        have hrest := tracks_hunks hadvance hstep (fun h hh => hself h (by simp [hh]))
          (by rwa [List.append_assoc]) hv ha
        rwa [List.append_assoc] at hrest

/-- **What is verified is what is applied.** If a patch whose hunks are separate is verified on a
file map and then applied to the same one with success, every path is as announced. -/
theorem applied_asAnnounced (paths : PatchPaths P) (args : ApplyPatchArgs) (cwd : P) (fs fs' : FileSystem P)
    (hsame : fs'.entries = fs.entries) (action : ApplyPatchAction P) (affected : AffectedPaths) (run : Run P)
    (hv : tryVerifyApplyPatchArgs paths args cwd fs = .ok action)
    (ha : applyHunksToFiles paths action.cwd args.hunks fs' = (.ok affected, run))
    (hsep : Separate paths action.cwd args.hunks) : AsAnnounced action.changes fs.files run.fs.files := by
  have hfiles : fs'.files = fs.files := by
    funext q
    rw [FileSystem.files, hsame]
    rfl
  rw [applyHunksToFiles] at ha
  split at ha
  · cases ha
  next hne =>
    rw [tryVerifyApplyPatchArgs] at hv
    split at hv
    · cases hv
    next effectiveCwd hcwd =>
      cases hchanges : verifyHunks paths effectiveCwd fs args.hunks ∅ with
      | error e => rw [hchanges] at hv; cases hv
      | ok changes =>
        rw [hchanges] at hv
        obtain rfl := Except.ok.inj hv
        have hnil : Tracks paths effectiveCwd fs.files [] ∅ fs'.files := hfiles ▸ Tracks.nil fs'.files
        have hpair : ([] ++ args.hunks).Pairwise (Hunk.Compatible paths effectiveCwd) := hsep.pairwise
        have ht := tracks_hunks rfl hnil hsep.noSelfMove hpair hchanges ha
        refine ⟨ht.announced, fun q hq => ?_⟩
        refine ht.untouched q fun h hh htouch => ?_
        obtain ⟨content, hc⟩ := (ht.touched q).2 ⟨h, hh, htouch⟩
        exact hq content hc

end

/-! ## Two updates of one file -/

def aPath : List Text := ["work".toList, "a".toList]

/-- The work directory with a file of two lines. -/
def twoLines : FileSystem (List Text) where
  entries := Function.update (fun _ => none) aPath (some (.file (.text "one\nx\n".toList) false))
  outcomes := []

def xToY : UpdateFileChunk :=
  { changeContext := none, oldLines := ["x".toList], newLines := ["y".toList], isEndOfFile := false }

def updateHunk (chunk : UpdateFileChunk) : Hunk := .updateFile "a".toList none [chunk]

/-- The arguments of a patch with these hunks; the text is only passed on. -/
def patchOf (hunks : List Hunk) : ApplyPatchArgs := { patch := [], hunks, workdir := none, environmentId := none }

/-- What `similar` renders for a change of the first or of the second line. -/
def lineDiff (_ new : Text) : Text :=
  if new = "two\nx\n".toList then "@@ -1,2 +1,2 @@\n-one\n+two\n x\n".toList
  else "@@ -1,2 +1,2 @@\n one\n-x\n+y\n".toList

/-- One update and one added file are applied as verified. -/
theorem applied_asAnnounced_separate :
    ∃ action affected run, tryVerifyApplyPatchArgs (posixPaths lineDiff)
        (patchOf [updateHunk oneToTwo, .addFile "b".toList "new\n".toList]) ["work".toList] twoLines = .ok action ∧
      applyHunksToFiles (posixPaths lineDiff) action.cwd [updateHunk oneToTwo, .addFile "b".toList "new\n".toList]
        twoLines = (.ok affected, run) ∧ AsAnnounced action.changes twoLines.files run.fs.files := by
  have hok : (tryVerifyApplyPatchArgs (posixPaths lineDiff)
      (patchOf [updateHunk oneToTwo, .addFile "b".toList "new\n".toList]) ["work".toList] twoLines).toOption.map
        (·.cwd) = some ["work".toList] := by decide +kernel
  have happly : (applyHunksToFiles (posixPaths lineDiff) ["work".toList]
      [updateHunk oneToTwo, .addFile "b".toList "new\n".toList] twoLines).1 =
        .ok { added := ["b".toList], modified := ["a".toList] } := by decide +kernel
  cases hv : tryVerifyApplyPatchArgs (posixPaths lineDiff)
      (patchOf [updateHunk oneToTwo, .addFile "b".toList "new\n".toList]) ["work".toList] twoLines with
  | error e => rw [hv] at hok; cases hok
  | ok action =>
    rw [hv] at hok
    have hcwd : action.cwd = ["work".toList] := Option.some.inj hok
    refine ⟨action, _, _, rfl, Prod.ext (hcwd ▸ happly) rfl, ?_⟩
    refine applied_asAnnounced (posixPaths lineDiff) (patchOf [updateHunk oneToTwo, .addFile "b".toList "new\n".toList])
      ["work".toList] twoLines twoLines rfl action _ _ hv (Prod.ext (hcwd ▸ happly) rfl) ?_
    refine ⟨fun hunk hmem => ?_, ?_⟩
    · rintro ⟨path, dest, chunks, target, rfl, -, -⟩
      simp [patchOf, updateHunk] at hmem
    · refine List.pairwise_pair.2 ⟨fun q hu => hu.elim, fun q hm => hm.elim, fun dest hm => hm.elim⟩

/-- Two updates of one file: the map announces the second on the initial content, and both are applied. -/
theorem applied_notAsAnnounced :
    ¬ ∀ action affected run, tryVerifyApplyPatchArgs (posixPaths lineDiff)
        (patchOf [updateHunk oneToTwo, updateHunk xToY]) ["work".toList] twoLines = .ok action →
      applyHunksToFiles (posixPaths lineDiff) action.cwd [updateHunk oneToTwo, updateHunk xToY] twoLines =
        (.ok affected, run) → AsAnnounced action.changes twoLines.files run.fs.files := by
  intro h
  have hok : (tryVerifyApplyPatchArgs (posixPaths lineDiff) (patchOf [updateHunk oneToTwo, updateHunk xToY])
      ["work".toList] twoLines).toOption.map (fun action => (action.cwd, action.changes.lookup aPath)) =
        some (["work".toList], some (.update (lineDiff [] "one\ny\n".toList) none "one\ny\n".toList)) := by decide +kernel
  have happly : (applyHunksToFiles (posixPaths lineDiff) ["work".toList] [updateHunk oneToTwo, updateHunk xToY]
      twoLines).1 = .ok { modified := ["a".toList, "a".toList] } := by decide +kernel
  have hfile : (applyHunksToFiles (posixPaths lineDiff) ["work".toList] [updateHunk oneToTwo, updateHunk xToY]
      twoLines).2.fs.files aPath = some (.text "two\ny\n".toList) := by decide +kernel
  cases hv : tryVerifyApplyPatchArgs (posixPaths lineDiff) (patchOf [updateHunk oneToTwo, updateHunk xToY])
      ["work".toList] twoLines with
  | error e => rw [hv] at hok; cases hok
  | ok action =>
    rw [hv] at hok
    obtain ⟨hcwd, hlookup⟩ := Prod.mk.inj (Option.some.inj hok)
    have hann := h action _ _ hv (Prod.ext (hcwd ▸ happly) rfl)
    have hat := hann.1 aPath (some "one\ny\n".toList) ⟨aPath, _, hlookup, by decide +kernel⟩
    rw [hcwd, hfile] at hat
    exact absurd hat (by decide +kernel)

end Codex.Patch
