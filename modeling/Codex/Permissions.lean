/-
Filesystem sandbox policies (`protocol/src/permissions.rs`): the access a policy resolves,
and the roots, matchers and signature derived from it.

An absolute, normalised path is the list of names below the root. The file
system has no symbolic links, so `canonicalize_preserving_symlinks` and
`normalize_effective_absolute_path` leave a path as it is, and the branches of
the source that tell a link from its target are left out. The working
directory and the paths asked about are absolute. The globset crate is a
parameter (`GlobMatchers`).
-/
import Codex.Text
import Codex.Lib.Specificity
import Mathlib.Data.Char
import Mathlib.Data.List.Destutter
import Mathlib.Data.List.Lex
import Mathlib.Data.List.Sort

namespace Codex.Permissions

open Specificity

/-- `push_unique`: appends what is not there yet. -/
def pushUnique {α : Type} [DecidableEq α] (xs : List α) (x : α) : List α := if xs.contains x then xs else xs ++ [x]

/-! ## Paths and the file system -/

/-- `AbsolutePathBuf`: the names below the root. -/
abbrev AbsolutePath := List Text

def AbsolutePath.parent (p : AbsolutePath) : Option AbsolutePath := if p = [] then none else some p.dropLast

/-- `Path::strip_prefix`, of a base and a path -/
def AbsolutePath.stripBase (base p : AbsolutePath) : Option AbsolutePath :=
  if base.isPrefixOf p then some (p.drop base.length) else none

def AbsolutePath.display (p : AbsolutePath) : Text :=
  if p = [] then ['/'] else p.flatMap fun name => '/' :: name

/-- The components of a path's text, the root directory apart. -/
def pathComponents (path : Text) : List Text := (path.splitOn '/').filter fun name => name != [] && name != ['.']

/-- `normalize_path` of components put after `base` -/
def normalizeComponents (base : AbsolutePath) (components : List Text) : AbsolutePath :=
  components.foldl (fun p name => if name = ['.', '.'] then p.dropLast else p ++ [name]) base

/-- `resolve_path_against_base`; `home` is the home directory. -/
def resolvePathAgainstBase (home : Option AbsolutePath) (path : Text) (base : AbsolutePath) : AbsolutePath :=
  match home, path with
  | some home, ['~'] => home
  | some home, '~' :: '/' :: rest => normalizeComponents home (pathComponents rest)
  | _, '/' :: rest => normalizeComponents [] (pathComponents rest)
  | _, _ => normalizeComponents base (pathComponents path)

inductive FileKind where
  | dir
  | emptyFile
  /-- a file with contents, and what `read_to_string` reads -/
  | file (text : Option Text)
  | other
  deriving DecidableEq, Repr

/-- A file system without symbolic links, and the process environment. -/
structure Host where
  kind : AbsolutePath → Option FileKind
  /-- `read_dir`: the names in a directory -/
  readDir : AbsolutePath → Option (List Text)
  /-- `TMPDIR`; none where it is unset or empty -/
  tmpdir : Option AbsolutePath
  home : Option AbsolutePath
  rootDir : kind [] = some .dir
  parentDir : ∀ p name, kind (p ++ [name]) ≠ none → kind p = some .dir
  readDirLists : ∀ p names name, readDir p = some names → kind (p ++ [name]) ≠ none → name ∈ names

namespace Host

variable (host : Host)

def pathExists (p : AbsolutePath) : Bool := host.kind p != none

def isDir (p : AbsolutePath) : Bool := host.kind p == some .dir

def isFile (p : AbsolutePath) : Bool :=
  match host.kind p with
  | some .emptyFile | some (.file _) => true
  | _ => false

def readToString (p : AbsolutePath) : Option Text :=
  match host.kind p with
  | some .emptyFile => some []
  | some (.file text) => text
  | _ => none

def kindIn (files : List (AbsolutePath × FileKind)) (p : AbsolutePath) : Option FileKind :=
  if p = [] then some .dir else (files.find? fun file => file.1 = p).map Prod.snd

theorem mem_of_kindIn {files p} {name : Text}
    (h : kindIn files (p ++ [name]) ≠ none) : ∃ file ∈ files, file.1 = p ++ [name] := by
  rw [kindIn, if_neg (by simp), ne_eq, Option.map_eq_none_iff, List.find?_eq_none] at h
  simpa using h

/-- The file system of finitely many files, each in a directory that is one of them or the root. -/
def ofFiles (files : List (AbsolutePath × FileKind)) (tmpdir home : Option AbsolutePath)
    (hclosed : ∀ file ∈ files, kindIn files file.1.dropLast = some .dir) : Host where
  kind := kindIn files
  readDir p := if kindIn files p = some .dir then
    some ((files.filter fun file => file.1.dropLast = p).filterMap fun file => file.1.getLast?) else none
  tmpdir := tmpdir
  home := home
  rootDir := rfl
  parentDir := by
    intro p name h
    obtain ⟨file, hfile, hpath⟩ := mem_of_kindIn h
    simpa [hpath] using hclosed file hfile
  readDirLists := by
    intro p names name hread h
    obtain ⟨file, hfile, hpath⟩ := mem_of_kindIn h
    split at hread
    · cases hread
      exact List.mem_filterMap.2 ⟨file, List.mem_filter.2 ⟨hfile, by simp [hpath]⟩, by simp [hpath]⟩
    · cases hread

/-- A file system with nothing below its root. -/
def empty : Host := ofFiles [] none none (by simp)

end Host

/-! ## Policies -/

/-- In the order of conflict precedence: `deny` beats `write`, and `write` beats `read`. -/
inductive FileSystemAccessMode where
  | read
  | write
  | deny
  deriving DecidableEq, Repr

namespace FileSystemAccessMode

def rank : FileSystemAccessMode → Nat
  | read => 0
  | write => 1
  | deny => 2

theorem rank_injective : Function.Injective rank := by
  intro a b h
  cases a <;> cases b <;> simp_all [rank]

instance : LinearOrder FileSystemAccessMode := LinearOrder.lift' rank rank_injective

def canRead (mode : FileSystemAccessMode) : Bool := mode != deny

def canWrite (mode : FileSystemAccessMode) : Bool := mode == write

theorem le_deny (mode : FileSystemAccessMode) : mode ≤ deny := by cases mode <;> decide

end FileSystemAccessMode

inductive FileSystemSpecialPath where
  | root
  | minimal
  | projectRoots (subpath : Option Text)
  | tmpdir
  | slashTmp
  | unknown (path : Text) (subpath : Option Text)
  deriving DecidableEq, Repr

inductive FileSystemPath where
  | path (path : AbsolutePath)
  | globPattern (pattern : Text)
  | special (value : FileSystemSpecialPath)
  deriving DecidableEq, Repr

inductive MissingPathBehavior where
  | skip
  deriving DecidableEq, Repr

structure FileSystemSandboxEntry where
  path : FileSystemPath
  access : FileSystemAccessMode
  missingPathBehavior : Option MissingPathBehavior
  deriving DecidableEq, Repr

def FileSystemSandboxEntry.new (path : FileSystemPath) (access : FileSystemAccessMode) : FileSystemSandboxEntry :=
  { path, access, missingPathBehavior := none }

inductive FileSystemSandboxKind where
  | restricted
  | unrestricted
  | externalSandbox
  deriving DecidableEq, Repr

structure FileSystemSandboxPolicy where
  kind : FileSystemSandboxKind
  globScanMaxDepth : Option Nat
  entries : List FileSystemSandboxEntry
  deriving DecidableEq, Repr

def FileSystemSandboxPolicy.restricted (entries : List FileSystemSandboxEntry) : FileSystemSandboxPolicy :=
  { kind := .restricted, globScanMaxDepth := none, entries }

/-- `ResolvedFileSystemEntry`, its access the rule's mode. -/
abbrev ResolvedFileSystemEntry := Rule Text FileSystemAccessMode

structure WritableRoot where
  root : AbsolutePath
  readOnlySubpaths : List AbsolutePath
  protectedMetadataNames : List Text
  deriving DecidableEq, Repr

/-! ## Metadata names -/

def dotGit : Text := ".git".toList
def dotAgents : Text := ".agents".toList
def dotCodex : Text := ".codex".toList

def protectedMetadataPathNames : List Text := [dotGit, dotAgents, dotCodex]

def metadataPathName (name : Text) : Option Text := protectedMetadataPathNames.find? (name = ·)

/-! ## Resolving entries -/

section
variable (host : Host) (cwd : AbsolutePath)

def slashTmp : AbsolutePath := ["tmp".toList]

def resolveFileSystemSpecialPath : FileSystemSpecialPath → Option AbsolutePath
  | .root | .minimal | .unknown _ _ => none
  | .projectRoots none => some cwd
  | .projectRoots (some subpath) => some (resolvePathAgainstBase host.home subpath cwd)
  | .tmpdir => host.tmpdir
  | .slashTmp => if host.isDir slashTmp then some slashTmp else none

def resolveFileSystemPath : FileSystemPath → Option AbsolutePath
  | .path path => some path
  | .globPattern _ => none
  | .special value => resolveFileSystemSpecialPath host cwd value

def resolveEntryPath : FileSystemPath → Option AbsolutePath
  | .special .root => some []
  | path => resolveFileSystemPath host cwd path

end

def specialPathsShareTarget : FileSystemSpecialPath → FileSystemSpecialPath → Bool
  | .root, .root | .minimal, .minimal | .tmpdir, .tmpdir | .slashTmp, .slashTmp => true
  | .projectRoots left, .projectRoots right => left == right
  | .unknown left leftSubpath, .unknown right rightSubpath => left == right && leftSubpath == rightSubpath
  | _, _ => false

def specialPathMatchesAbsolutePath (value : FileSystemSpecialPath) (path : AbsolutePath) : Bool :=
  match value with
  | .root => path.parent == none
  | .slashTmp => path == slashTmp
  | _ => false

def fileSystemPathsShareTarget : FileSystemPath → FileSystemPath → Bool
  | .path left, .path right => left == right
  | .special left, .special right => specialPathsShareTarget left right
  | .path path, .special value | .special value, .path path => specialPathMatchesAbsolutePath value path
  | .globPattern left, .globPattern right => left == right
  | .globPattern _, _ | _, .globPattern _ => false

/-! ## Access -/

namespace FileSystemSandboxPolicy

section
variable (policy : FileSystemSandboxPolicy)

def hasRootAccess (predicate : FileSystemAccessMode → Bool) : Bool :=
  policy.kind == .restricted && policy.entries.any fun entry => entry.path == .special .root && predicate entry.access

def hasDeniedReadRestrictions : Bool :=
  policy.kind == .restricted && policy.entries.any fun entry => entry.access == .deny

def hasSameTargetWriteOverride (entry : FileSystemSandboxEntry) : Bool :=
  policy.entries.any fun candidate =>
    candidate.access.canWrite && decide (entry.access < candidate.access) &&
      fileSystemPathsShareTarget candidate.path entry.path

def narrowsWrite (entry : FileSystemSandboxEntry) : Bool :=
  if entry.access.canWrite then false
  else match entry.path with
    | .path _ => !policy.hasSameTargetWriteOverride entry
    | .globPattern _ => true
    | .special .root => entry.access == .deny
    | .special .minimal | .special (.unknown _ _) => false
    | .special _ => !policy.hasSameTargetWriteOverride entry

def hasWriteNarrowingEntries : Bool := policy.kind == .restricted && policy.entries.any policy.narrowsWrite

def hasFullDiskReadAccess : Bool :=
  match policy.kind with
  | .unrestricted | .externalSandbox => true
  | .restricted => policy.hasRootAccess FileSystemAccessMode.canRead && !policy.hasDeniedReadRestrictions

def hasFullDiskWriteAccess : Bool :=
  match policy.kind with
  | .unrestricted | .externalSandbox => true
  | .restricted => policy.hasRootAccess FileSystemAccessMode.canWrite && !policy.hasWriteNarrowingEntries

def includePlatformDefaults : Bool :=
  !policy.hasFullDiskReadAccess && policy.kind == .restricted &&
    policy.entries.any fun entry => entry.path == .special .minimal && entry.access.canRead

variable (host : Host) (cwd : AbsolutePath)

def resolvedEntriesWithCwd : List ResolvedFileSystemEntry :=
  policy.entries.filterMap fun entry => (resolveEntryPath host cwd entry.path).map fun path => ⟨path, entry.access⟩

/-- The most specific entry that covers `path`. -/
def mostSpecificEntry (path : AbsolutePath) : Option ResolvedFileSystemEntry :=
  mostSpecific (policy.resolvedEntriesWithCwd host cwd) path

def resolveAccessWithCwd (path : AbsolutePath) : FileSystemAccessMode :=
  match policy.kind with
  | .unrestricted | .externalSandbox => .write
  | .restricted => ((policy.mostSpecificEntry host cwd path).map Rule.mode).getD .deny

def canReadPathWithCwd (path : AbsolutePath) : Bool := (policy.resolveAccessWithCwd host cwd path).canRead

end

end FileSystemSandboxPolicy

/-- The metadata path below a write entry that has `target` under it, and its name. -/
def metadataChild (target : AbsolutePath) (entry : ResolvedFileSystemEntry) : Option (AbsolutePath × Text) := do
  let relative ← AbsolutePath.stripBase entry.path target
  let name ← metadataPathName (← relative.head?)
  return (entry.path ++ [name], name)

section
variable (policy : FileSystemSandboxPolicy) (host : Host) (cwd : AbsolutePath)

/-- `metadata_child_of_writable_root`: of the first write entry that has one. -/
def metadataChildOfWritableRoot (target : AbsolutePath) : Option (AbsolutePath × Text) :=
  ((policy.resolvedEntriesWithCwd host cwd).filter fun entry => entry.mode.canWrite).findSome? (metadataChild target)

def hasExplicitWriteEntryForMetadataPath (protectedMetadataPath target : AbsolutePath) : Bool :=
  (policy.resolvedEntriesWithCwd host cwd).any fun entry =>
    entry.mode.canWrite && entry.path.isPrefixOf target && protectedMetadataPath.isPrefixOf entry.path

namespace FileSystemSandboxPolicy

def isMetadataWriteDenied (path : AbsolutePath) : Bool :=
  if policy.kind != .restricted then false
  else match metadataChildOfWritableRoot policy host cwd path with
    | none => false
    | some (protectedMetadataPath, _) => !hasExplicitWriteEntryForMetadataPath policy host cwd protectedMetadataPath path

def canWritePathWithCwd (path : AbsolutePath) : Bool :=
  if !(policy.resolveAccessWithCwd host cwd path).canWrite then false
  else if policy.hasFullDiskWriteAccess then true
  else !policy.isMetadataWriteDenied host cwd path

end FileSystemSandboxPolicy

end

/-! ## Roots -/

/-- `dedup_absolute_paths`: the first of equal paths stays. -/
def dedupAbsolutePaths (paths : List AbsolutePath) : List AbsolutePath := paths.eraseDups

def sortedAbsolutePaths (paths : List AbsolutePath) : List AbsolutePath := paths.insertionSort (· ≤ ·)

def isGitPointerFile (host : Host) (path : AbsolutePath) : Bool := host.isFile path && path.getLast? == some dotGit

def resolveGitdirFromFile (host : Host) (gitFile : AbsolutePath) : Option AbsolutePath := do
  let contents ← host.readToString gitFile
  let (before, gitdirRaw) ← Text.splitOnce [':'] contents.trim
  if before.trim ≠ "gitdir".toList then none
  else if gitdirRaw.trim = [] then none
  else
    let base ← gitFile.parent
    let gitdirPath := resolvePathAgainstBase host.home gitdirRaw.trim base
    if host.pathExists gitdirPath then some gitdirPath else none

/-- The gitdir a pointer file `.git` directly below `root` names. -/
def gitdirOfRoot (host : Host) (root : AbsolutePath) : List AbsolutePath :=
  if isGitPointerFile host (root ++ [dotGit]) then (resolveGitdirFromFile host (root ++ [dotGit])).toList else []

def defaultReadOnlySubpathsForWritableRoot (host : Host) (writableRoot : AbsolutePath) (protectMissingDotCodex : Bool) :
    List AbsolutePath :=
  let topLevelGit := writableRoot ++ [dotGit]
  let topLevelAgents := writableRoot ++ [dotAgents]
  let topLevelCodex := writableRoot ++ [dotCodex]
  dedupAbsolutePaths
    ((if host.isDir topLevelGit || host.isFile topLevelGit then gitdirOfRoot host writableRoot ++ [topLevelGit] else []) ++
      (if host.isDir topLevelAgents then [topLevelAgents] else []) ++
      (if protectMissingDotCodex || host.isDir topLevelCodex then [topLevelCodex] else []))

def hasExplicitResolvedPathEntry (entries : List ResolvedFileSystemEntry) (path : AbsolutePath) : Bool :=
  entries.any fun entry => entry.path == path

namespace FileSystemSandboxPolicy

variable (policy : FileSystemSandboxPolicy) (host : Host) (cwd : AbsolutePath)

def protectedMetadataNamesForWritableRoot (root : AbsolutePath) : List Text :=
  protectedMetadataPathNames.filter fun name => !policy.canWritePathWithCwd host cwd (root ++ [name])

def getReadableRootsWithCwd : List AbsolutePath :=
  if policy.hasFullDiskReadAccess then []
  else dedupAbsolutePaths
    ((((policy.resolvedEntriesWithCwd host cwd).filter fun entry => entry.mode.canRead).filter
      fun entry => policy.canReadPathWithCwd host cwd entry.path).map Rule.path)

/-- The entries that carve a read-only path out of `root`. -/
def readOnlyCarveouts (root : AbsolutePath) : List AbsolutePath :=
  ((((policy.resolvedEntriesWithCwd host cwd).filter fun entry => !entry.mode.canWrite).filter
    fun entry => !policy.canWritePathWithCwd host cwd entry.path).map Rule.path).filter
      fun path => path != root && root.isPrefixOf path

def writableRoot (root : AbsolutePath) : WritableRoot where
  root := root
  readOnlySubpaths := dedupAbsolutePaths
    ((defaultReadOnlySubpathsForWritableRoot host root (cwd == root)).filter
        (fun path => !hasExplicitResolvedPathEntry (policy.resolvedEntriesWithCwd host cwd) path) ++
      policy.readOnlyCarveouts host cwd root)
  protectedMetadataNames := policy.protectedMetadataNamesForWritableRoot host cwd root

def getWritableRootsWithCwd : List WritableRoot :=
  if policy.hasFullDiskWriteAccess then []
  else (dedupAbsolutePaths
    ((((policy.resolvedEntriesWithCwd host cwd).filter fun entry => entry.mode.canWrite).filter
      fun entry => policy.canWritePathWithCwd host cwd entry.path).map Rule.path)).map (policy.writableRoot host cwd)

def getUnreadableRootsWithCwd : List AbsolutePath :=
  if policy.kind != .restricted then []
  else dedupAbsolutePaths
    (((((policy.resolvedEntriesWithCwd host cwd).filter fun entry => entry.mode == .deny).filter
      fun entry => !policy.canReadPathWithCwd host cwd entry.path).filter fun entry => entry.path != []).map Rule.path)

def denyGlobPattern (entry : FileSystemSandboxEntry) : Option Text :=
  match entry.path with
  | .globPattern pattern => if entry.access = .deny then some (resolvePathAgainstBase host.home pattern cwd).display else none
  | _ => none

def getUnreadableGlobsWithCwd : List Text :=
  if policy.kind != .restricted then []
  else ((policy.entries.filterMap (denyGlobPattern host cwd)).insertionSort (· ≤ ·)).destutter (· ≠ ·)

end FileSystemSandboxPolicy

/-! ## Semantic signature -/

def sortedWritableRoots (roots : List WritableRoot) : List WritableRoot :=
  (roots.map fun root =>
    { root with
      readOnlySubpaths := sortedAbsolutePaths root.readOnlySubpaths
      protectedMetadataNames := (root.protectedMetadataNames.insertionSort (· ≤ ·)).destutter (· ≠ ·) }).insertionSort
    fun left right => left.root ≤ right.root

structure FileSystemSemanticSignature where
  hasFullDiskReadAccess : Bool
  hasFullDiskWriteAccess : Bool
  includePlatformDefaults : Bool
  readableRoots : List AbsolutePath
  writableRoots : List WritableRoot
  unreadableRoots : List AbsolutePath
  unreadableGlobs : List Text
  deriving DecidableEq

namespace FileSystemSandboxPolicy

variable (policy other : FileSystemSandboxPolicy) (host : Host) (cwd : AbsolutePath)

def semanticSignature : FileSystemSemanticSignature where
  hasFullDiskReadAccess := policy.hasFullDiskReadAccess
  hasFullDiskWriteAccess := policy.hasFullDiskWriteAccess
  includePlatformDefaults := policy.includePlatformDefaults
  readableRoots := sortedAbsolutePaths (policy.getReadableRootsWithCwd host cwd)
  writableRoots := sortedWritableRoots (policy.getWritableRootsWithCwd host cwd)
  unreadableRoots := sortedAbsolutePaths (policy.getUnreadableRootsWithCwd host cwd)
  unreadableGlobs := policy.getUnreadableGlobsWithCwd host cwd

def isSemanticallyEquivalentTo : Bool := policy.semanticSignature host cwd == other.semanticSignature host cwd

end FileSystemSandboxPolicy

/-! ## The read-deny matcher -/

/-- `build_glob_matcher`: the paths a glob pattern matches, or why it does not compile. -/
structure GlobMatchers where
  buildGlobMatcher : Text → Except Text (AbsolutePath → Bool)

inductive InvalidDenyReadGlobBehavior where
  | failClosed
  | returnError
  deriving DecidableEq, Repr

structure ReadDenyMatcher where
  deniedCandidates : List (List AbsolutePath)
  denyReadMatchers : List (AbsolutePath → Bool)
  invalidPattern : Bool

/-- The lexical path, and the canonical one where the path exists: without links the same. -/
def normalizedAndCanonicalCandidates (host : Host) (path : AbsolutePath) : List AbsolutePath :=
  let candidates := pushUnique [] path
  if host.pathExists path then pushUnique candidates path else candidates

namespace ReadDenyMatcher

variable (globs : GlobMatchers) (policy : FileSystemSandboxPolicy) (host : Host) (cwd : AbsolutePath)

def addPattern (invalidGlobBehavior : InvalidDenyReadGlobBehavior) (matcher : ReadDenyMatcher) (pattern : Text) :
    Except Text ReadDenyMatcher :=
  match globs.buildGlobMatcher pattern with
  | .ok m => .ok { matcher with denyReadMatchers := matcher.denyReadMatchers ++ [m] }
  | .error err =>
    match invalidGlobBehavior with
    | .failClosed => .ok { matcher with invalidPattern := true }
    | .returnError => .error ("invalid deny-read glob pattern `".toList ++ pattern ++ "`: ".toList ++ err)

/-- The matcher of the exact roots. -/
def ofRoots : ReadDenyMatcher where
  deniedCandidates := (policy.getUnreadableRootsWithCwd host cwd).map (normalizedAndCanonicalCandidates host)
  denyReadMatchers := []
  invalidPattern := false

def build (invalidGlobBehavior : InvalidDenyReadGlobBehavior) : Except Text (Option ReadDenyMatcher) :=
  if !policy.hasDeniedReadRestrictions then .ok none
  else ((policy.getUnreadableGlobsWithCwd host cwd).foldlM (addPattern globs invalidGlobBehavior)
    (ofRoots policy host cwd)).map some

/-- `ReadDenyMatcher::new`; the source takes an error to be unreachable. -/
def new : Option ReadDenyMatcher :=
  match build globs policy host cwd .failClosed with
  | .ok matcher => matcher
  | .error _ => none

def tryNew : Except Text (Option ReadDenyMatcher) := build globs policy host cwd .returnError

def isReadDenied (matcher : ReadDenyMatcher) (host : Host) (path : AbsolutePath) : Bool :=
  if matcher.invalidPattern then true
  else
    let pathCandidates := normalizedAndCanonicalCandidates host path
    if matcher.deniedCandidates.any fun deniedCandidates => pathCandidates.any fun candidate =>
        deniedCandidates.any fun denied => candidate == denied || denied.isPrefixOf candidate then true
    else matcher.denyReadMatchers.any fun m => pathCandidates.any m

end ReadDenyMatcher

end Codex.Permissions
