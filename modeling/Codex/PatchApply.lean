/-
Applying and verifying a patch (`apply-patch/src/lib.rs`, `seek_sequence.rs`,
`invocation.rs`). `applyHunksToFiles` runs the hunks one after the other
against the file system and records what it did in a delta;
`tryVerifyApplyPatchArgs` evaluates each of them against the file system as it
is and collects the results in a map by path.

The file system is a map of paths to entries. A file's bytes are either the UTF-8 form of
a text or not. Every operation takes its outcome from a list the environment provides: it
may fail at any call, and a failed write or removal may have changed its path. `NotFound`
says that a path read has no entry, of a write that the parent is missing.

Paths are a parameter (`PatchPaths`), and so is the rendering of a diff.
-/
import Codex.Patch
import Mathlib.Data.List.AList
import Mathlib.Data.List.Sort
import Mathlib.Logic.Function.Basic

namespace Codex.Patch

open Text

/-! ## Locating and replacing lines -/

def normaliseChar (c : Char) : Char :=
  if c.toNat ∈ [0x2010, 0x2011, 0x2012, 0x2013, 0x2014, 0x2015, 0x2212] then '-'
  else if c.toNat ∈ [0x2018, 0x2019, 0x201A, 0x201B] then '\''
  else if c.toNat ∈ [0x201C, 0x201D, 0x201E, 0x201F] then '"'
  else if c.toNat ∈ [0x00A0, 0x2002, 0x2003, 0x2004, 0x2005, 0x2006, 0x2007, 0x2008, 0x2009, 0x200A, 0x202F,
    0x205F, 0x3000] then ' '
  else c

def normalise (s : Text) : Text := (trim s).map normaliseChar

/-- One pass of `seek_sequence`: the first position at which the lines agree with the pattern
once both are put through `norm`. -/
def firstMatch (norm : Text → Text) (lines pattern : List Text) (searchStart : Nat) : Option Nat :=
  (List.range' searchStart (lines.length - pattern.length + 1 - searchStart)).find? fun i =>
    ((lines.drop i).take pattern.length).map norm == pattern.map norm

def seekSequence (lines pattern : List Text) (start : Nat) (eof : Bool) : Option Nat :=
  if pattern = [] then some start
  else if lines.length < pattern.length then none
  else
    let searchStart := if eof then lines.length - pattern.length else start
    firstMatch id lines pattern searchStart
      |>.orElse fun _ => firstMatch trimEnd lines pattern searchStart
      |>.orElse fun _ => firstMatch trim lines pattern searchStart
      |>.orElse fun _ => firstMatch normalise lines pattern searchStart

inductive ErrorKind where
  | notFound
  | other
  deriving DecidableEq, Repr

inductive ApplyPatchError where
  | noFilesModified
  | pathUriParseError
  | computeReplacements (message : Text)
  | ioError (context : Text) (source : ErrorKind)
  deriving DecidableEq, Repr

def contextNotFoundMessage (context path : Text) : Text :=
  "Failed to find context '".toList ++ context ++ "' in ".toList ++ path

def linesNotFoundMessage (path : Text) (oldLines : List Text) : Text :=
  "Failed to find expected lines in ".toList ++ path ++ ":\n".toList ++ List.intercalate ['\n'] oldLines

structure Replacement where
  startIndex : Nat
  oldLen : Nat
  newLines : List Text
  deriving DecidableEq, Repr

/-- `line_index` after the chunk's context line. -/
def seekContext (lines : List Text) (path : Text) (lineIndex : Nat) (changeContext : Option Text) :
    Except ApplyPatchError Nat :=
  match changeContext with
  | none => .ok lineIndex
  | some context =>
    match seekSequence lines [context] lineIndex false with
    | some idx => .ok (idx + 1)
    | none => .error (.computeReplacements (contextNotFoundMessage context path))

/-- The replacement of a chunk with old lines, retried without a final empty line. -/
def seekOldLines (lines : List Text) (lineIndex : Nat) (chunk : UpdateFileChunk) : Option Replacement :=
  match seekSequence lines chunk.oldLines lineIndex chunk.isEndOfFile with
  | some start => some ⟨start, chunk.oldLines.length, chunk.newLines⟩
  | none =>
    if chunk.oldLines.getLast? = some [] then
      let pattern := chunk.oldLines.dropLast
      let newSlice := if chunk.newLines.getLast? = some [] then chunk.newLines.dropLast else chunk.newLines
      (seekSequence lines pattern lineIndex chunk.isEndOfFile).map fun start => ⟨start, pattern.length, newSlice⟩
    else none

/-- The loop of `compute_replacements`. -/
def collectReplacements (lines : List Text) (path : Text) :
    Nat → List UpdateFileChunk → Except ApplyPatchError (List Replacement)
  | _, [] => .ok []
  | lineIndex, chunk :: chunks => do
    let lineIndex ← seekContext lines path lineIndex chunk.changeContext
    if chunk.oldLines = [] then
      let insertionIdx := if lines.getLast? = some [] then lines.length - 1 else lines.length
      return ⟨insertionIdx, 0, chunk.newLines⟩ :: (← collectReplacements lines path lineIndex chunks)
    else
      match seekOldLines lines lineIndex chunk with
      | some r => return r :: (← collectReplacements lines path (r.startIndex + r.oldLen) chunks)
      | none => .error (.computeReplacements (linesNotFoundMessage path chunk.oldLines))

def computeReplacements (lines : List Text) (path : Text) (chunks : List UpdateFileChunk) :
    Except ApplyPatchError (List Replacement) := do
  return (← collectReplacements lines path 0 chunks).insertionSort fun a b => a.startIndex ≤ b.startIndex

/-- Every start index is at most the number of lines, so the source's `insert` never panics. -/
def applyReplacements (lines : List Text) (replacements : List Replacement) : List Text :=
  replacements.reverse.foldl
    (fun lines r => lines.take r.startIndex ++ r.newLines ++ lines.drop (r.startIndex + r.oldLen)) lines

/-- The part of `derive_new_contents_from_chunks` after the file is read. -/
def newContents (path original : Text) (chunks : List UpdateFileChunk) : Except ApplyPatchError Text := do
  let originalLines := original.splitOn '\n'
  let originalLines := if originalLines.getLast? = some [] then originalLines.dropLast else originalLines
  let newLines := applyReplacements originalLines (← computeReplacements originalLines path chunks)
  let newLines := if newLines.getLast? = some [] then newLines else newLines ++ [[]]
  return List.intercalate ['\n'] newLines

/-! ## The file system -/

structure PatchPaths (P : Type) where
  join : P → Text → Option P
  /-- The path itself and the directories above it. -/
  ancestors : P → List P
  nativePathString : P → Text
  unifiedDiff : Text → Text → Text

inductive FileContents where
  | text (contents : Text)
  | binary (bytes : List UInt8)
  deriving DecidableEq, Repr

/-- A file, perhaps behind a symbolic link, or a directory. -/
inductive Entry where
  | file (contents : FileContents) (isSymlink : Bool)
  | directory
  deriving DecidableEq, Repr

/-- How the environment lets an operation end. A failed write leaves `left` at its path and a
failed removal removes it, if `changed`. -/
inductive Outcome where
  | ok
  | fails (kind : ErrorKind) (changed : Bool) (left : Option FileContents)
  deriving DecidableEq, Repr

structure FileSystem (P : Type) where
  entries : P → Option Entry
  outcomes : List Outcome

structure FileMetadata where
  isDirectory : Bool
  isFile : Bool
  isSymlink : Bool
  deriving DecidableEq, Repr

def Entry.metadata : Entry → FileMetadata
  | file _ isSymlink => { isDirectory := false, isFile := true, isSymlink }
  | directory => { isDirectory := true, isFile := false, isSymlink := false }

def Entry.isLink : Entry → Bool
  | file _ isSymlink => isSymlink
  | directory => false

section
variable {P : Type} [DecidableEq P]

namespace FileSystem

def files (fs : FileSystem P) (path : P) : Option FileContents :=
  match fs.entries path with
  | some (.file contents _) => some contents
  | _ => none

def nextOutcome (fs : FileSystem P) : Outcome := fs.outcomes.headD .ok

def advance (fs : FileSystem P) : FileSystem P := { fs with outcomes := fs.outcomes.tail }

/-- Puts a file at a path, keeping a link a link. -/
def putFile (fs : FileSystem P) (path : P) (contents : FileContents) : FileSystem P :=
  let isSymlink := ((fs.entries path).map Entry.isLink).getD false
  { fs with entries := Function.update fs.entries path (some (.file contents isSymlink)) }

def clear (fs : FileSystem P) (path : P) : FileSystem P :=
  { fs with entries := Function.update fs.entries path none }

def readFileText (fs : FileSystem P) (path : P) : Except ErrorKind Text :=
  match fs.nextOutcome with
  | .fails .. => .error .other
  | .ok =>
    match fs.entries path with
    | none => .error .notFound
    | some (.file (.text contents) _) => .ok contents
    | some (.file (.binary _) _) => .error .other
    | some .directory => .error .other

def getMetadata (fs : FileSystem P) (path : P) : Except ErrorKind FileMetadata :=
  match fs.nextOutcome with
  | .fails .. => .error .other
  | .ok =>
    match fs.entries path with
    | none => .error .notFound
    | some entry => .ok entry.metadata

def writeFile (fs : FileSystem P) (path : P) (contents : Text) : Except ErrorKind Unit × FileSystem P :=
  match fs.nextOutcome with
  | .fails kind changed left =>
    (.error kind, if changed then (match left with
      | some left => fs.advance.putFile path left
      | none => fs.advance.clear path) else fs.advance)
  | .ok =>
    if fs.entries path = some .directory then (.error .other, fs.advance)
    else (.ok (), fs.advance.putFile path (.text contents))

def remove (fs : FileSystem P) (path : P) : Except ErrorKind Unit × FileSystem P :=
  match fs.nextOutcome with
  | .fails _ changed _ => (.error .other, if changed then fs.advance.clear path else fs.advance)
  | .ok =>
    match fs.entries path with
    | none => (.error .notFound, fs.advance)
    | some .directory => (.error .other, fs.advance)
    | some (.file ..) => (.ok (), fs.advance.clear path)

/-- A recursive `create_directory`: directories appear where nothing was. -/
def createDirectory (paths : PatchPaths P) (fs : FileSystem P) (path : P) : Except ErrorKind Unit × FileSystem P :=
  match fs.nextOutcome with
  | .fails .. => (.error .other, fs.advance)
  | .ok =>
    if (paths.ancestors path).any fun dir => (fs.files dir).isSome then (.error .other, fs.advance)
    else (.ok (), { fs.advance with
      entries := fun q => if q ∈ paths.ancestors path ∧ fs.entries q = none then some .directory else fs.entries q })

def writeErrorContext (paths : PatchPaths P) (path : P) : Text :=
  "Failed to write file ".toList ++ paths.nativePathString path

def createErrorContext (paths : PatchPaths P) (path : P) : Text :=
  "Failed to create parent directories for ".toList ++ paths.nativePathString path

/-- A write with its error in context. -/
def writeInContext (paths : PatchPaths P) (fs : FileSystem P) (path : P) (contents : Text) :
    Except ApplyPatchError Unit × FileSystem P :=
  match fs.writeFile path contents with
  | (.ok (), fs) => (.ok (), fs)
  | (.error kind, fs) => (.error (.ioError (writeErrorContext paths path) kind), fs)

def writeFileWithMissingParentRetry (paths : PatchPaths P) (fs : FileSystem P) (path : P) (contents : Text) :
    Except ApplyPatchError Unit × FileSystem P :=
  match fs.writeFile path contents with
  | (.ok (), fs) => (.ok (), fs)
  | (.error .notFound, fs) =>
    match (paths.ancestors path).tail.head? with
    | none => fs.writeInContext paths path contents
    | some parent =>
      match fs.createDirectory paths parent with
      | (.error kind, fs) => (.error (.ioError (createErrorContext paths path) kind), fs)
      | (.ok (), fs) => fs.writeInContext paths path contents
  | (.error .other, fs) => (.error (.ioError (writeErrorContext paths path) .other), fs)

end FileSystem

/-! ## Applying hunks -/

inductive AppliedPatchFileChange (P : Type) where
  | add (content : Text) (overwrittenContent : Option Text)
  | delete (content : Text)
  | update (movePath : Option P) (oldContent : Text) (overwrittenMoveContent : Option Text) (newContent : Text)
  deriving DecidableEq, Repr

structure AppliedPatchChange (P : Type) where
  path : P
  change : AppliedPatchFileChange P
  deriving DecidableEq, Repr

structure AppliedPatchDelta (P : Type) where
  changes : List (AppliedPatchChange P) := []
  exact : Bool := true
  deriving DecidableEq, Repr

/-- What `apply_hunks_to_files` has by reference: the file system and the delta. -/
structure Run (P : Type) where
  fs : FileSystem P
  delta : AppliedPatchDelta P := {}

namespace Run

def inexact (run : Run P) : Run P := { run with delta := { run.delta with exact := false } }

def push (run : Run P) (path : P) (change : AppliedPatchFileChange P) : Run P :=
  { run with delta := { run.delta with changes := run.delta.changes ++ [{ path, change }] } }

def advance (run : Run P) : Run P := { run with fs := run.fs.advance }

def noteExistingPathDeltaSupport (run : Run P) (path : P) : Run P :=
  match run.fs.getMetadata path with
  | .ok metadata => if metadata.isFile && !metadata.isSymlink then run.advance else run.advance.inexact
  | .error .notFound => run.advance
  | .error .other => run.advance.inexact

def readOptionalFileTextForDelta (run : Run P) (path : P) : Option Text × Run P :=
  let run := run.noteExistingPathDeltaSupport path
  match run.fs.readFileText path with
  | .ok content => (some content, run.advance)
  | .error .notFound => (none, run.advance)
  | .error .other => (none, run.advance.inexact)

/-- `ensure_not_directory` and the removal that follows it, both with the same context. The
delta stays exact only if a failed removal left the expected content in place. -/
def removeFile (paths : PatchPaths P) (run : Run P) (path : P) (context : Text) (expectedContent : Option Text) :
    Except ApplyPatchError Unit × Run P :=
  match run.fs.getMetadata path with
  | .error kind => (.error (.ioError (context ++ paths.nativePathString path) kind), run.advance)
  | .ok metadata =>
    if metadata.isDirectory then (.error (.ioError (context ++ paths.nativePathString path) .other), run.advance)
    else
      match run.advance.fs.remove path with
      | (.ok (), fs) => (.ok (), { run with fs })
      | (.error kind, fs) =>
        let removeFailureWasSideEffectFree := match expectedContent with
          | some expected => fs.readFileText path = .ok expected
          | none => false
        let fs := if expectedContent.isSome then fs.advance else fs
        (.error (.ioError (context ++ paths.nativePathString path) kind),
          { fs, delta := { run.delta with exact := run.delta.exact && removeFailureWasSideEffectFree } })

def addFile (paths : PatchPaths P) (run : Run P) (path : P) (contents : Text) : Except ApplyPatchError Unit × Run P :=
  let (overwrittenContent, run) := run.readOptionalFileTextForDelta path
  match run.fs.writeFileWithMissingParentRetry paths path contents with
  | (.ok (), fs) => (.ok (), { run with fs }.push path (.add contents overwrittenContent))
  | (.error error, fs) => (.error error, { run with fs }.inexact)

def deleteFile (paths : PatchPaths P) (run : Run P) (path : P) : Except ApplyPatchError Unit × Run P :=
  let run := run.noteExistingPathDeltaSupport path
  let deletedContent := run.fs.readFileText path
  let run := match deletedContent with
    | .ok _ => run.advance
    | .error _ => run.advance.inexact
  match run.removeFile paths path "Failed to delete file ".toList deletedContent.toOption with
  | (.ok (), run) =>
    (.ok (), match deletedContent with
      | .ok content => run.push path (.delete content)
      | .error _ => run)
  | (.error error, run) => (.error error, run)

def deriveNewContentsFromChunks (paths : PatchPaths P) (fs : FileSystem P) (path : P) (chunks : List UpdateFileChunk) :
    Except ApplyPatchError (Text × Text) :=
  match fs.readFileText path with
  | .error kind => .error (.ioError ("Failed to read file to update ".toList ++ paths.nativePathString path) kind)
  | .ok original => (newContents (paths.nativePathString path) original chunks).map fun new => (original, new)

def updateFile (paths : PatchPaths P) (run : Run P) (path : P) (original new : Text) :
    Except ApplyPatchError Unit × Run P :=
  match run.fs.writeInContext paths path new with
  | (.ok (), fs) => (.ok (), { run with fs }.push path (.update none original none new))
  | (.error error, fs) => (.error error, { run with fs }.inexact)

/-- The destination is written first and recorded as added; once the source is removed the
record becomes the move. -/
def moveFile (paths : PatchPaths P) (run : Run P) (path dest : P) (original new : Text) :
    Except ApplyPatchError Unit × Run P :=
  let (overwrittenMoveContent, run) := run.readOptionalFileTextForDelta dest
  match run.fs.writeFileWithMissingParentRetry paths dest new with
  | (.error error, fs) => (.error error, { run with fs }.inexact)
  | (.ok (), fs) =>
    let written := { run with fs }
    match (written.push dest (.add new overwrittenMoveContent)).removeFile paths path
        "Failed to remove original ".toList (some original) with
    | (.error error, run) => (.error error, run)
    | (.ok (), moved) =>
      (.ok (), { moved with delta := written.delta }.push path (.update (some dest) original overwrittenMoveContent new))

end Run

structure AffectedPaths where
  added : List Text := []
  modified : List Text := []
  deleted : List Text := []
  deriving DecidableEq, Repr

/-- The path as the patch spells it, the destination for a move. -/
def Hunk.path : Hunk → Text
  | addFile path _ => path
  | deleteFile path => path
  | updateFile _ (some path) _ => path
  | updateFile path none _ => path

def Hunk.sourcePath : Hunk → Text
  | addFile path _ => path
  | deleteFile path => path
  | updateFile path _ _ => path

def Hunk.resolvePath (paths : PatchPaths P) (cwd : P) (hunk : Hunk) : Option P := paths.join cwd hunk.sourcePath

def AffectedPaths.record (affected : AffectedPaths) (hunk : Hunk) : AffectedPaths :=
  match hunk with
  | .addFile .. => { affected with added := affected.added ++ [hunk.path] }
  | .deleteFile _ => { affected with deleted := affected.deleted ++ [hunk.path] }
  | .updateFile .. => { affected with modified := affected.modified ++ [hunk.path] }

/-- One round of the loop of `apply_hunks_to_files`. -/
def applyHunk (paths : PatchPaths P) (cwd : P) (hunk : Hunk) (run : Run P) : Except ApplyPatchError Unit × Run P :=
  match hunk.resolvePath paths cwd with
  | none => (.error .pathUriParseError, run)
  | some path =>
    match hunk with
    | .addFile _ contents => run.addFile paths path contents
    | .deleteFile _ => run.deleteFile paths path
    | .updateFile _ movePath chunks =>
      let run := run.noteExistingPathDeltaSupport path
      match Run.deriveNewContentsFromChunks paths run.fs path chunks with
      | .error error => (.error error, run.advance)
      | .ok (original, new) =>
        match movePath with
        | none => run.advance.updateFile paths path original new
        | some dest =>
          match paths.join cwd dest with
          | none => (.error .pathUriParseError, run.advance)
          | some dest => run.advance.moveFile paths path dest original new

def applyHunks (paths : PatchPaths P) (cwd : P) :
    List Hunk → Run P → AffectedPaths → Except ApplyPatchError AffectedPaths × Run P
  | [], run, affected => (.ok affected, run)
  | hunk :: hunks, run, affected =>
    match applyHunk paths cwd hunk run with
    | (.error error, run) => (.error error, run)
    | (.ok (), run) => applyHunks paths cwd hunks run (affected.record hunk)

def applyHunksToFiles (paths : PatchPaths P) (cwd : P) (hunks : List Hunk) (fs : FileSystem P) :
    Except ApplyPatchError AffectedPaths × Run P :=
  if hunks = [] then (.error .noFilesModified, { fs }) else applyHunks paths cwd hunks { fs } {}

/-! ## Verifying -/

inductive ApplyPatchFileChange (P : Type) where
  | add (content : Text)
  | delete (content : Text)
  | update (unifiedDiff : Text) (movePath : Option P) (newContent : Text)
  deriving DecidableEq, Repr

structure ApplyPatchAction (P : Type) where
  changes : AList fun _ : P => ApplyPatchFileChange P
  patch : Text
  cwd : P

/-- One round of the loop of `try_verify_apply_patch_args`: the entry it inserts. -/
def verifyHunk (paths : PatchPaths P) (cwd : P) (fs : FileSystem P) (hunk : Hunk) :
    Except ApplyPatchError (P × ApplyPatchFileChange P) :=
  match hunk.resolvePath paths cwd with
  | none => .error .pathUriParseError
  | some path =>
    match hunk with
    | .addFile _ contents => .ok (path, .add contents)
    | .deleteFile _ =>
      match fs.readFileText path with
      | .error kind => .error (.ioError ("Failed to read ".toList ++ paths.nativePathString path) kind)
      | .ok content => .ok (path, .delete content)
    | .updateFile _ movePath chunks =>
      match Run.deriveNewContentsFromChunks paths fs path chunks with
      | .error error => .error error
      | .ok (original, new) =>
        match movePath with
        | none => .ok (path, .update (paths.unifiedDiff original new) none new)
        | some dest =>
          match paths.join cwd dest with
          | none => .error .pathUriParseError
          | some dest => .ok (path, .update (paths.unifiedDiff original new) (some dest) new)

/-- Whether a hunk's round reads a file, and so takes an outcome. -/
def Hunk.reads : Hunk → Bool
  | addFile .. => false
  | deleteFile _ | updateFile .. => true

def verifyHunks (paths : PatchPaths P) (cwd : P) :
    FileSystem P → List Hunk → (AList fun _ : P => ApplyPatchFileChange P) →
      Except ApplyPatchError (AList fun _ : P => ApplyPatchFileChange P)
  | _, [], changes => .ok changes
  | fs, hunk :: hunks, changes =>
    match verifyHunk paths cwd fs hunk with
    | .error error => .error error
    | .ok (path, change) =>
      verifyHunks paths cwd (if hunk.reads then fs.advance else fs) hunks (changes.insert path change)

def tryVerifyApplyPatchArgs (paths : PatchPaths P) (args : ApplyPatchArgs) (cwd : P) (fs : FileSystem P) :
    Except ApplyPatchError (ApplyPatchAction P) :=
  match (match args.workdir with
    | none => some cwd
    | some dir => paths.join cwd dir) with
  | none => .error .pathUriParseError
  | some effectiveCwd =>
    (verifyHunks paths effectiveCwd fs args.hunks ∅).map fun changes =>
      { changes, patch := args.patch, cwd := effectiveCwd }

end

/-! ## Unix paths -/

/-- Paths as lists of components: empty and `.` segments are ignored, `..` removes one. -/
def posixPaths (unifiedDiff : Text → Text → Text) : PatchPaths (List Text) where
  join cwd path :=
    if '\x00' ∈ path then none
    else some ((path.splitOn '/').foldl (fun components component =>
      if component = [] ∨ component = ['.'] then components
      else if component = ['.', '.'] then components.dropLast
      else components ++ [component]) (if path.head? = some '/' then [] else cwd))
  ancestors path := path.inits.reverse
  nativePathString path := '/' :: List.intercalate ['/'] path
  unifiedDiff

end Codex.Patch
