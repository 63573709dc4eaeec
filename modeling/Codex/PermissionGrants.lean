/-
Granting part of what was requested (`sandboxing/src/policy_transforms.rs`):
`intersect_permission_profiles` keeps the granted entries that are within the
request, each at its own path, and adds the deny entries of either side that
overlap one of them.
-/
import Codex.Permissions
import Mathlib.Data.PNat.Defs

namespace Codex.Permissions

structure NetworkPermissions where
  enabled : Option Bool
  deriving DecidableEq, Repr

structure FileSystemPermissions where
  entries : List FileSystemSandboxEntry
  globScanMaxDepth : Option ℕ+
  deriving DecidableEq

def FileSystemPermissions.default : FileSystemPermissions := { entries := [], globScanMaxDepth := none }

def FileSystemPermissions.isEmpty (permissions : FileSystemPermissions) : Bool := permissions.entries.isEmpty

structure AdditionalPermissionProfile where
  network : Option NetworkPermissions
  fileSystem : Option FileSystemPermissions
  deriving DecidableEq

/-! ## Entries -/

section
variable (host : Host) (cwd : AbsolutePath)

def resolvePermissionPath : FileSystemPath → Option AbsolutePath
  | .path path => some path
  | .globPattern _ => none
  | .special .root => some []
  | .special (.projectRoots (some subpath)) => some (resolvePathAgainstBase host.home subpath cwd)
  | .special (.projectRoots none) => some cwd
  | .special .tmpdir => host.tmpdir
  | .special .slashTmp => if host.isDir slashTmp then some slashTmp else none
  | .special .minimal | .special (.unknown _ _) => none

def materializeCwdDependentEntry (entry : FileSystemSandboxEntry) : FileSystemSandboxEntry :=
  match entry.path with
  | .special (.projectRoots _) =>
    match resolvePermissionPath host cwd entry.path with
    | some path => { entry with path := .path path }
    | none => entry
  | .globPattern pattern => { entry with path := .globPattern (resolvePathAgainstBase host.home pattern cwd).display }
  | .path _ | .special _ => entry

def accessCovers (requested granted : FileSystemAccessMode) : Bool :=
  match granted with
  | .read => requested.canRead
  | .write => requested.canWrite
  | .deny => false

def pathsOverlap (left right : AbsolutePath) : Bool := right.isPrefixOf left || left.isPrefixOf right

/-- The directory above a pattern's first `*`, `?`, `[` or `]`; the whole pattern where there is none. -/
def globStaticPrefixPath (pattern : Text) : Option AbsolutePath :=
  let resolvedPattern := (resolvePathAgainstBase host.home pattern cwd).display
  match resolvedPattern.findIdx? (['*', '?', '[', ']'].contains ·) with
  | some 0 => none
  | some index =>
    let before := resolvedPattern.take index
    let components := pathComponents before
    if Text.endsWith before ['/'] || Text.endsWith before ['\\'] then some (normalizeComponents [] components)
    else if components = [] then none
    else some (normalizeComponents [] components.dropLast)
  | none => some (normalizeComponents [] (pathComponents resolvedPattern))

/-! ## The entries kept -/

def grantedFileSystemEntryWithinRequest (requested : FileSystemPermissions) (requestedPolicy : FileSystemSandboxPolicy)
    (requestedReadDenyMatcher : Option ReadDenyMatcher) (grantedEntry : FileSystemSandboxEntry) : Bool :=
  if !grantedEntry.access.canRead then false
  else match resolvePermissionPath host cwd grantedEntry.path with
    | some path =>
      if requestedReadDenyMatcher.any fun matcher => matcher.isReadDenied host path then false
      else accessCovers (requestedPolicy.resolveAccessWithCwd host cwd path) grantedEntry.access
    | none => requested.entries.any fun requestedEntry =>
        accessCovers requestedEntry.access grantedEntry.access && requestedEntry.path == grantedEntry.path

def acceptedEntries (globs : GlobMatchers) (requested granted : FileSystemPermissions) : List FileSystemSandboxEntry :=
  let requestedPolicy := FileSystemSandboxPolicy.restricted requested.entries
  let requestedReadDenyMatcher := ReadDenyMatcher.new globs requestedPolicy host cwd
  ((granted.entries.filter
    (grantedFileSystemEntryWithinRequest host cwd requested requestedPolicy requestedReadDenyMatcher)).map
      (materializeCwdDependentEntry host cwd)).foldl pushUnique []

/-- Whether a deny entry overlaps a grant at `grantPath`. -/
def denyEntryOverlaps (denyEntry : FileSystemSandboxEntry) (grantPath : AbsolutePath) : Bool :=
  match denyEntry.path with
  | .globPattern pattern => (globStaticPrefixPath host cwd pattern).any fun staticPrefix => pathsOverlap staticPrefix grantPath
  | path => (resolvePermissionPath host cwd path).any fun denyPath => pathsOverlap denyPath grantPath

def denyEntryConstrainsAcceptedGrant (acceptedEntries : List FileSystemSandboxEntry) (denyEntry : FileSystemSandboxEntry) :
    Bool :=
  (acceptedEntries.filter fun entry => entry.access.canRead).any fun entry =>
    (resolvePermissionPath host cwd entry.path).any (denyEntryOverlaps host cwd denyEntry)

/-- `retain_constraining_deny_entries`: the entries retained. -/
def retainedDenyEntries (acceptedEntries sourceEntries : List FileSystemSandboxEntry) : List FileSystemSandboxEntry :=
  ((sourceEntries.filter fun entry => entry.access == .deny).filter
    (denyEntryConstrainsAcceptedGrant host cwd acceptedEntries)).map (materializeCwdDependentEntry host cwd)

end

/-! ## Glob scan depth -/

inductive GlobScanDepth where
  | bounded (depth : Nat)
  | unbounded
  deriving DecidableEq, Repr

def effectiveGlobScanDepth (entries : List FileSystemSandboxEntry) (depth : Option Nat) : Option GlobScanDepth :=
  let isDenyGlob (entry : FileSystemSandboxEntry) : Bool :=
    entry.access == .deny && match entry.path with | .globPattern _ => true | _ => false
  if entries.any isDenyGlob then some (match depth with | some depth => .bounded depth | none => .unbounded) else none

def mergeGlobScanMaxDepth (leftEntries : List FileSystemSandboxEntry) (leftDepth : Option Nat)
    (rightEntries : List FileSystemSandboxEntry) (rightDepth : Option Nat) : Option Nat :=
  match effectiveGlobScanDepth leftEntries leftDepth, effectiveGlobScanDepth rightEntries rightDepth with
  | some .unbounded, _ | _, some .unbounded => none
  | some (.bounded left), some (.bounded right) => some (max left right)
  | some (.bounded depth), none | none, some (.bounded depth) => some depth
  | none, none => none

/-- `NonZeroUsize::new` -/
def nonZero (n : Nat) : Option ℕ+ := if h : 0 < n then some ⟨n, h⟩ else none

/-! ## The intersection -/

section
variable (globs : GlobMatchers) (host : Host) (cwd : AbsolutePath)

def intersectFileSystemPermissions (requested granted : FileSystemPermissions) : FileSystemPermissions :=
  let accepted := acceptedEntries host cwd globs requested granted
  let requestedRetained := retainedDenyEntries host cwd accepted requested.entries
  let grantedRetained := retainedDenyEntries host cwd accepted granted.entries
  { globScanMaxDepth := (mergeGlobScanMaxDepth requestedRetained (requested.globScanMaxDepth.map PNat.val)
      grantedRetained (granted.globScanMaxDepth.map PNat.val)).bind nonZero
    entries := grantedRetained.foldl pushUnique (requestedRetained.foldl pushUnique accepted) }

def intersectPermissionProfiles (requested granted : AdditionalPermissionProfile) : AdditionalPermissionProfile where
  network :=
    match requested.network, granted.network with
    | some ⟨some true⟩, some ⟨some true⟩ => some ⟨some true⟩
    | _, _ => none
  fileSystem := (requested.fileSystem.map fun requestedFileSystem =>
    intersectFileSystemPermissions globs host cwd requestedFileSystem
      (granted.fileSystem.getD FileSystemPermissions.default)).filter fun fileSystem => !fileSystem.isEmpty

end

end Codex.Permissions
