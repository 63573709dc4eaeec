/-
The bubblewrap arguments for a filesystem policy (`linux-sandbox/src/bwrap.rs`,
`create_filesystem_args`): the order of the binds and masks, and which of them
each root, read-only subpath and unreadable root gets.

There are no symbolic links, so `canonical_target_if_symlinked_path` and
`first_writable_symlink_component_in_path` find none and their branches are left
out. The expansion of deny globs runs another program and is a parameter, as
are opening `/dev/null` and the identity of a file (`BwrapEnv`).
-/
import Codex.Permissions
import Codex.Lib.MountLayers

namespace Codex.Permissions

structure FileIdentity where
  dev : Nat
  ino : Nat
  deriving DecidableEq, Repr

/-- `File::open("/dev/null")` (its descriptor, or the error), `FileIdentity::from_metadata` of a
path, and the scan for the files deny globs match. -/
structure BwrapEnv where
  openDevNull : Except Text Nat
  fileIdentity : AbsolutePath → FileIdentity
  scanGlobs : List Text → AbsolutePath → Option Nat → Except Text (List AbsolutePath)

/-- An option of the command line with its arguments; a bind has one path for source and target. -/
inductive BwrapArg where
  | roBind (path : AbsolutePath)
  | bind (path : AbsolutePath)
  | roBindData (fd : Nat) (path : AbsolutePath)
  | tmpfs (path : AbsolutePath)
  | dev (path : AbsolutePath)
  | dir (path : AbsolutePath)
  | perms (mode : Text)
  | remountRo (path : AbsolutePath)
  deriving DecidableEq, Repr

def BwrapArg.toArgs : BwrapArg → List Text
  | .roBind path => ["--ro-bind".toList, path.display, path.display]
  | .bind path => ["--bind".toList, path.display, path.display]
  | .roBindData fd path => ["--ro-bind-data".toList, Nat.toDigits 10 fd, path.display]
  | .tmpfs path => ["--tmpfs".toList, path.display]
  | .dev path => ["--dev".toList, path.display]
  | .dir path => ["--dir".toList, path.display]
  | .perms mode => ["--perms".toList, mode]
  | .remountRo path => ["--remount-ro".toList, path.display]

inductive SyntheticMountTargetKind where
  | emptyFile
  | emptyDirectory
  deriving DecidableEq, Repr

structure SyntheticMountTarget where
  path : AbsolutePath
  kind : SyntheticMountTargetKind
  preExistingPath : Option FileIdentity
  deriving DecidableEq, Repr

structure BwrapArgs where
  args : List BwrapArg
  preservedFiles : List Nat
  syntheticMountTargets : List SyntheticMountTarget
  /-- `ProtectedCreateTarget::missing` of each -/
  protectedCreateTargets : List AbsolutePath
  deriving DecidableEq, Repr

def BwrapArgs.push (b : BwrapArgs) (args : List BwrapArg) : BwrapArgs := { b with args := b.args ++ args }

def BwrapArgs.pushSynthetic (b : BwrapArgs) (target : SyntheticMountTarget) : BwrapArgs :=
  { b with syntheticMountTargets := b.syntheticMountTargets ++ [target] }

def linuxPlatformDefaultReadRoots : List AbsolutePath :=
  ["/bin", "/sbin", "/usr", "/etc", "/lib", "/lib64", "/nix/store", "/run/current-system/sw"].map
    fun path => normalizeComponents [] (pathComponents path.toList)

/-! ## Paths on the host -/

section
variable (host : Host)

def directoryIsEmpty (path : AbsolutePath) : Bool :=
  match host.readDir path with
  | some names => names.isEmpty
  | none => false

/-- `transient_empty_metadata_path`: what kind of empty metadata path this is. -/
def transientEmptyMetadataPath (path : AbsolutePath) : Option SyntheticMountTargetKind :=
  if !path.getLast?.any (protectedMetadataPathNames.contains ·) then none
  else if host.kind path = some .emptyFile then some .emptyFile
  else if host.isDir path && directoryIsEmpty host path then some .emptyDirectory
  else none

def findFirstNonExistentComponent (targetPath : AbsolutePath) : Option AbsolutePath :=
  targetPath.inits.find? fun current => !host.pathExists current

def isWithinAllowedWritePaths (path : AbsolutePath) (allowedWritePaths : List AbsolutePath) : Bool :=
  allowedWritePaths.any fun root => root.isPrefixOf path

/-- `sort_by_key(path_depth)` -/
def sortByDepth (paths : List AbsolutePath) : List AbsolutePath :=
  paths.insertionSort fun left right => left.length ≤ right.length

def mountTargetParentDirArgs (mountTarget anchor : AbsolutePath) : List BwrapArg :=
  let mountTargetDir := if host.isDir mountTarget then some mountTarget else mountTarget.parent
  match mountTargetDir with
  | none => []
  | some dir => ((dir.inits.reverse.takeWhile (· != anchor)).reverse).map .dir

def ancestorHasGitMetadata (ancestor : AbsolutePath) : Bool :=
  let gitPath := ancestor ++ [dotGit]
  if host.isDir gitPath then host.pathExists (gitPath ++ ["HEAD".toList])
  else if host.isFile gitPath then
    (host.readToString gitPath).any fun contents => Text.startsWith contents.trimStart "gitdir:".toList
  else false

def shouldLeaveMissingGitForParentRepoDiscovery (mountRoot : AbsolutePath) (name : Text) : Bool :=
  -- below a file the error is another than `NotFound`
  name == dotGit && host.isDir mountRoot && !host.pathExists (mountRoot ++ [name]) && mountRoot != [] &&
    mountRoot.dropLast.inits.any (ancestorHasGitMetadata host)

end

/-! ## Masks and read-only subpaths -/

section
variable (env : BwrapEnv) (host : Host)

def appendEmptyFileBindDataArgs (b : BwrapArgs) (path : AbsolutePath) : Except Text BwrapArgs := do
  let b ← match b.preservedFiles with
    | [] => env.openDevNull.map fun fd => { b with preservedFiles := [fd] }
    | _ => .ok b
  match b.preservedFiles with
  | [] => .ok b
  | nullFd :: _ => .ok (b.push [.roBindData nullFd path])

def appendEmptyDirectoryArgs (b : BwrapArgs) (path : AbsolutePath) : BwrapArgs :=
  b.push [.perms "555".toList, .tmpfs path, .remountRo path]

def appendMissingEmptyFileBindDataArgs (b : BwrapArgs) (path : AbsolutePath) : Except Text BwrapArgs := do
  let b ← appendEmptyFileBindDataArgs env b path
  return b.pushSynthetic ⟨path, .emptyFile, none⟩

def appendMissingReadOnlySubpathArgs (b : BwrapArgs) (path : AbsolutePath) : Except Text BwrapArgs :=
  if path.getLast?.any (protectedMetadataPathNames.contains ·) then
    .ok ((appendEmptyDirectoryArgs b path).pushSynthetic ⟨path, .emptyDirectory, none⟩)
  else appendMissingEmptyFileBindDataArgs env b path

def appendExistingEmptyFileBindDataArgs (b : BwrapArgs) (path : AbsolutePath) : Except Text BwrapArgs := do
  let b ← appendEmptyFileBindDataArgs env b path
  return b.pushSynthetic ⟨path, .emptyFile, some (env.fileIdentity path)⟩

def appendExistingEmptyDirectoryArgs (b : BwrapArgs) (path : AbsolutePath) : BwrapArgs :=
  (appendEmptyDirectoryArgs b path).pushSynthetic ⟨path, .emptyDirectory, some (env.fileIdentity path)⟩

/-- Where the first missing component of a path may be written, `append` masks it. -/
def appendFirstMissing (allowedWritePaths : List AbsolutePath) (append : BwrapArgs → AbsolutePath → Except Text BwrapArgs)
    (b : BwrapArgs) (path : AbsolutePath) : Except Text BwrapArgs :=
  match findFirstNonExistentComponent host path with
  | some firstMissing => if isWithinAllowedWritePaths firstMissing allowedWritePaths then append b firstMissing else .ok b
  | none => .ok b

def appendReadOnlySubpathArgs (allowedWritePaths : List AbsolutePath) (b : BwrapArgs) (subpath : AbsolutePath) :
    Except Text BwrapArgs :=
  let within := isWithinAllowedWritePaths subpath allowedWritePaths
  match if within then transientEmptyMetadataPath host subpath else none with
  | some .emptyFile => appendExistingEmptyFileBindDataArgs env b subpath
  | some .emptyDirectory => .ok (appendExistingEmptyDirectoryArgs env b subpath)
  | none =>
    if !host.pathExists subpath then appendFirstMissing host allowedWritePaths (appendMissingReadOnlySubpathArgs env) b subpath
    else if within then .ok (b.push [.roBind subpath])
    else .ok b

def appendExistingUnreadablePathArgs (allowedWritePaths : List AbsolutePath) (b : BwrapArgs) (unreadableRoot : AbsolutePath) :
    Except Text BwrapArgs :=
  if host.isDir unreadableRoot then
    let writableDescendants := allowedWritePaths.filter fun path => path != unreadableRoot && unreadableRoot.isPrefixOf path
    .ok (b.push
      ([.perms (if writableDescendants.isEmpty then "000".toList else "111".toList), .tmpfs unreadableRoot] ++
        (sortByDepth writableDescendants).flatMap (fun path => mountTargetParentDirArgs host path unreadableRoot) ++
        [.remountRo unreadableRoot]))
  else appendEmptyFileBindDataArgs env (b.push [.perms "000".toList]) unreadableRoot

def appendUnreadableRootArgs (allowedWritePaths : List AbsolutePath) (b : BwrapArgs) (unreadableRoot : AbsolutePath) :
    Except Text BwrapArgs :=
  if !host.pathExists unreadableRoot then
    appendFirstMissing host allowedWritePaths (appendMissingEmptyFileBindDataArgs env) b unreadableRoot
  else appendExistingUnreadablePathArgs env host allowedWritePaths b unreadableRoot

end

/-! ## The plan -/

section
variable (env : BwrapEnv) (policy : FileSystemSandboxPolicy) (host : Host) (cwd : AbsolutePath) (globScanMaxDepth : Option Nat)

def expandUnreadableGlobsWithRipgrep (patterns : List Text) (maxDepth : Option Nat) : Except Text (List AbsolutePath) :=
  if patterns.isEmpty || maxDepth == some 0 then .ok [] else env.scanGlobs patterns cwd maxDepth

/-- The writable roots that exist; the filesystem root where only globs narrow a full-disk policy. -/
def boundWritableRoots : List WritableRoot :=
  let writableRoots := (policy.getWritableRootsWithCwd host cwd).filter fun w => host.pathExists w.root
  if writableRoots.isEmpty && policy.hasFullDiskWriteAccess && !(policy.getUnreadableGlobsWithCwd host cwd).isEmpty then
    [{ root := [], readOnlySubpaths := [], protectedMetadataNames := [] }]
  else writableRoots

/-- Whether a project root subpath is one of the metadata names, as a path. -/
def isAutoMetadataSubpath (subpath : Text) : Bool :=
  protectedMetadataPathNames.any fun name => (subpath.splitOn '/').head? == some name && pathComponents subpath == [name]

def missingAutoMetadataReadOnlyProjectRootSubpaths : List AbsolutePath :=
  policy.entries.filterMap fun entry =>
    match entry.access, entry.path with
    | .read, .special (.projectRoots (some subpath)) =>
      let resolved := resolvePathAgainstBase host.home subpath cwd
      if isAutoMetadataSubpath subpath && !host.pathExists resolved then some resolved else none
    | _, _ => none

def baseReadableRoots : List AbsolutePath :=
  (sortedAbsolutePaths (policy.getReadableRootsWithCwd host cwd ++
    if policy.includePlatformDefaults then linuxPlatformDefaultReadRoots.filter host.pathExists else [])).destutter (· ≠ ·)

/-- The mounts the plan starts from. -/
def baseArgs : List BwrapArg :=
  if policy.hasFullDiskReadAccess || (baseReadableRoots policy host cwd).contains [] then
    [.roBind [], .dev ["dev".toList]]
  else [.tmpfs [], .dev ["dev".toList]] ++ ((baseReadableRoots policy host cwd).filter host.pathExists).map .roBind

/-- `append_protected_create_targets_for_writable_root` -/
def protectedCreateTargetsFor (protectedMetadataNames : List Text) (root : AbsolutePath) (readOnlySubpaths : List AbsolutePath) :
    List AbsolutePath :=
  (protectedMetadataNames.map fun name => root ++ [name]).filter
    fun path => !(readOnlySubpaths.contains path || host.pathExists path)

/-- The protected names of a root whose paths `append_metadata_path_masks_for_writable_root` adds. -/
def maskedMetadataPaths (w : WritableRoot) : List AbsolutePath :=
  (w.protectedMetadataNames.filter fun name => !shouldLeaveMissingGitForParentRepoDiscovery host w.root name).map
    fun name => w.root ++ [name]

def plannedReadOnlySubpaths (unreadableRoots : List AbsolutePath) (w : WritableRoot) : List AbsolutePath :=
  (maskedMetadataPaths host w).foldl pushUnique
    ((w.readOnlySubpaths.filter fun path => !unreadableRoots.contains path).filter
      fun path => !(missingAutoMetadataReadOnlyProjectRootSubpaths policy host cwd).contains path)

/-- The unreadable root that masks `root`: the deepest above it, the last of several. -/
def maskingRoot (unreadableRoots : List AbsolutePath) (root : AbsolutePath) : Option AbsolutePath :=
  Specificity.maxByKey List.length (unreadableRoots.filter fun unreadableRoot => unreadableRoot.isPrefixOf root)

def appendWritableRootArgs (unreadableRoots allowedWritePaths : List AbsolutePath) (b : BwrapArgs) (w : WritableRoot) :
    Except Text BwrapArgs := do
  let parents := (maskingRoot unreadableRoots w.root).elim [] (mountTargetParentDirArgs host w.root)
  let readOnlySubpaths := plannedReadOnlySubpaths policy host cwd unreadableRoots w
  let b := b.push (parents ++ [.bind w.root])
  let b := { b with protectedCreateTargets :=
    b.protectedCreateTargets ++ protectedCreateTargetsFor host w.protectedMetadataNames w.root readOnlySubpaths }
  let b ← (sortByDepth readOnlySubpaths).foldlM (appendReadOnlySubpathArgs env host allowedWritePaths) b
  (sortByDepth (unreadableRoots.filter fun path => w.root.isPrefixOf path)).foldlM
    (appendUnreadableRootArgs env host allowedWritePaths) b

/-- The unreadable roots outside every allowed write path with one inside them. -/
def unreadableAncestors (unreadableRoots allowedWritePaths : List AbsolutePath) : List AbsolutePath :=
  unreadableRoots.filter fun unreadableRoot =>
    !allowedWritePaths.any (fun root => root.isPrefixOf unreadableRoot) &&
      allowedWritePaths.any fun root => unreadableRoot.isPrefixOf root

def rootlessUnreadableRoots (unreadableRoots allowedWritePaths : List AbsolutePath) : List AbsolutePath :=
  unreadableRoots.filter fun unreadableRoot =>
    !allowedWritePaths.any fun root => root.isPrefixOf unreadableRoot || unreadableRoot.isPrefixOf root

/-- `sort_by_key` of the writable roots by their depth -/
def sortedByDepth (roots : List WritableRoot) : List WritableRoot :=
  roots.insertionSort fun left right => left.root.length ≤ right.root.length

def createFilesystemArgs : Except Text BwrapArgs := do
  let unreadableGlobs := policy.getUnreadableGlobsWithCwd host cwd
  let writableRoots := boundWritableRoots policy host cwd
  let expanded ← expandUnreadableGlobsWithRipgrep env cwd unreadableGlobs globScanMaxDepth
  let unreadableRoots := (sortedAbsolutePaths (policy.getUnreadableRootsWithCwd host cwd ++ expanded)).destutter (· ≠ ·)
  let allowedWritePaths := writableRoots.map WritableRoot.root
  let b : BwrapArgs :=
    { args := baseArgs policy host cwd, preservedFiles := [], syntheticMountTargets := [], protectedCreateTargets := [] }
  let b ← (sortByDepth (unreadableAncestors unreadableRoots allowedWritePaths)).foldlM
    (appendUnreadableRootArgs env host allowedWritePaths) b
  let b ← (sortedByDepth writableRoots).foldlM (appendWritableRootArgs env policy host cwd unreadableRoots allowedWritePaths) b
  (sortByDepth (rootlessUnreadableRoots unreadableRoots allowedWritePaths)).foldlM
    (appendUnreadableRootArgs env host allowedWritePaths) b

end

/-! ## The arguments as mounts -/

/-- What a mount shows below its target: the host's own files, an empty mask or a new `/dev`. -/
inductive MountSource where
  | hostReadOnly
  | hostReadWrite
  | mask
  | dev
  deriving DecidableEq, Repr

/-- The mount an argument makes; directories, permissions and remounting the mask leave what is seen as it is. -/
def BwrapArg.mount : BwrapArg → Option (MountLayers.Mount Text MountSource)
  | .roBind path => some ⟨path, .hostReadOnly⟩
  | .bind path => some ⟨path, .hostReadWrite⟩
  | .tmpfs path | .roBindData _ path => some ⟨path, .mask⟩
  | .dev path => some ⟨path, .dev⟩
  | .dir _ | .perms _ | .remountRo _ => none

def mountsOf (args : List BwrapArg) : List (MountLayers.Mount Text MountSource) := args.filterMap BwrapArg.mount

/-- What the arguments show at `path`. -/
def seenAt (args : List BwrapArg) (path : AbsolutePath) : Option MountSource := MountLayers.topmost (mountsOf args) path

end Codex.Permissions
