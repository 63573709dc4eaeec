/-
What the mounts of a plan show.

The arguments come down to a list of mounts in four parts (`planMounts`): the base, the
masks of unreadable roots around the writable ones, each writable root with its read-only
subpaths and its masks, and the masks of the rest. Only a writable root's own bind shows
the host read-write, and only the base and a root's read-only subpaths show it read-only.
-/
import Codex.Lib.Results
import Codex.MountPlan
import Codex.PermissionFacts

namespace Codex.Permissions

open MountLayers
open Results (bind_eq_ok)

/-! ## Existing paths -/

section
variable {host : Host} {p q : AbsolutePath}

theorem pathExists_iff : host.pathExists p = true ↔ host.kind p ≠ none := by simp [Host.pathExists]

theorem pathExists_above (h : q <+: p) (hp : host.pathExists p = true) : host.pathExists q = true := by
  obtain ⟨rest, rfl⟩ := h
  induction rest using List.reverseRecOn with
  | nil => simpa using hp
  | append_singleton rest name ih =>
    rw [pathExists_iff, ← List.append_assoc] at hp
    exact ih (pathExists_iff.2 (by simp [host.parentDir _ _ hp]))

theorem firstNonExistent_apart {target m} (h : findFirstNonExistentComponent host target = some m)
    (hp : host.pathExists p = true) : ¬ m <+: p := by
  intro hmp
  have hmissing := List.find?_some h
  rw [pathExists_above hmp hp] at hmissing
  cases hmissing

end

/-! ## The mounts each step adds -/

abbrev HostMount := Mount Text MountSource

section
variable (host : Host) (allowed : List AbsolutePath)

def missingMounts (path : AbsolutePath) : List HostMount :=
  match findFirstNonExistentComponent host path with
  | some firstMissing => if isWithinAllowedWritePaths firstMissing allowed then [⟨firstMissing, .mask⟩] else []
  | none => []

def unreadableMounts (unreadableRoot : AbsolutePath) : List HostMount :=
  if host.pathExists unreadableRoot then [⟨unreadableRoot, .mask⟩] else missingMounts host allowed unreadableRoot

def readOnlyMounts (subpath : AbsolutePath) : List HostMount :=
  if isWithinAllowedWritePaths subpath allowed && (transientEmptyMetadataPath host subpath).isSome then [⟨subpath, .mask⟩]
  else if host.pathExists subpath then
    if isWithinAllowedWritePaths subpath allowed then [⟨subpath, .hostReadOnly⟩] else []
  else missingMounts host allowed subpath

end

section
variable {env : BwrapEnv} {host : Host} {allowed : List AbsolutePath} {b b' : BwrapArgs}

theorem mountsOf_append (args args' : List BwrapArg) : mountsOf (args ++ args') = mountsOf args ++ mountsOf args' :=
  List.filterMap_append

theorem mountsOf_push (b : BwrapArgs) (args : List BwrapArg) : mountsOf (b.push args).args = mountsOf b.args ++ mountsOf args :=
  mountsOf_append b.args args

theorem mountsOf_parentDirArgs (target anchor : AbsolutePath) : mountsOf (mountTargetParentDirArgs host target anchor) = [] := by
  rw [mountsOf, List.filterMap_eq_nil_iff]
  intro arg harg
  rw [mountTargetParentDirArgs] at harg
  generalize (if host.isDir target then some target else target.parent) = dir at harg
  cases dir with
  | none => cases harg
  | some dir =>
    obtain ⟨dir, -, rfl⟩ := List.mem_map.1 harg
    rfl

theorem appendEmptyFile_mounts {path : AbsolutePath} (h : appendEmptyFileBindDataArgs env b path = .ok b') :
    mountsOf b'.args = mountsOf b.args ++ [⟨path, .mask⟩] := by
  unfold appendEmptyFileBindDataArgs at h
  cases hfiles : b.preservedFiles with
  | nil =>
    cases hopen : env.openDevNull with
    | error err =>
      simp only [hfiles, hopen] at h
      cases h
    | ok fd =>
      simp only [hfiles, hopen] at h
      cases h
      exact mountsOf_push { b with preservedFiles := [fd] } _
  | cons fd rest =>
    simp only [hfiles, bind, Except.bind] at h
    cases h
    exact mountsOf_push b _

theorem appendMissingEmptyFile_mounts {path} (h : appendMissingEmptyFileBindDataArgs env b path = .ok b') :
    mountsOf b'.args = mountsOf b.args ++ [⟨path, .mask⟩] := by
  obtain ⟨b₁, hfile, h⟩ := bind_eq_ok.1 h
  cases h
  exact @appendEmptyFile_mounts env b b₁ path hfile

theorem appendMissingReadOnly_mounts {path} (h : appendMissingReadOnlySubpathArgs env b path = .ok b') :
    mountsOf b'.args = mountsOf b.args ++ [⟨path, .mask⟩] := by
  unfold appendMissingReadOnlySubpathArgs at h
  split at h
  · cases h
    exact mountsOf_push b _
  · exact appendMissingEmptyFile_mounts h

theorem appendFirstMissing_mounts {append : BwrapArgs → AbsolutePath → Except Text BwrapArgs}
    (happend : ∀ {b b' path}, append b path = .ok b' → mountsOf b'.args = mountsOf b.args ++ [⟨path, .mask⟩])
    {path} (h : appendFirstMissing host allowed append b path = .ok b') :
    mountsOf b'.args = mountsOf b.args ++ missingMounts host allowed path := by
  rw [appendFirstMissing] at h
  rw [missingMounts]
  cases hfirst : findFirstNonExistentComponent host path with
  | none =>
    rw [hfirst] at h
    cases h
    simp
  | some firstMissing =>
    simp only [hfirst] at h ⊢
    split at h
    next hwithin => rw [if_pos hwithin, happend h]
    next hwithin =>
      cases h
      rw [if_neg hwithin, List.append_nil]

theorem appendReadOnlySubpath_mounts {subpath}
    (h : appendReadOnlySubpathArgs env host allowed b subpath = .ok b') :
    mountsOf b'.args = mountsOf b.args ++ readOnlyMounts host allowed subpath := by
  unfold appendReadOnlySubpathArgs at h
  rw [readOnlyMounts]
  have hrest : (if !host.pathExists subpath then
        appendFirstMissing host allowed (appendMissingReadOnlySubpathArgs env) b subpath
      else if isWithinAllowedWritePaths subpath allowed then .ok (b.push [.roBind subpath]) else .ok b) = .ok b' →
      mountsOf b'.args = mountsOf b.args ++ if host.pathExists subpath then
        if isWithinAllowedWritePaths subpath allowed then [⟨subpath, .hostReadOnly⟩] else []
        else missingMounts host allowed subpath := by
    intro hrest
    cases hexists : host.pathExists subpath with
    | false =>
      rw [hexists] at hrest
      exact appendFirstMissing_mounts appendMissingReadOnly_mounts hrest
    | true =>
      rw [hexists] at hrest
      cases hwithin : isWithinAllowedWritePaths subpath allowed with
      | true =>
        rw [hwithin] at hrest
        cases hrest
        exact mountsOf_push b _
      | false =>
        rw [hwithin] at hrest
        cases hrest
        exact (List.append_nil _).symm
  cases hwithin : isWithinAllowedWritePaths subpath allowed with
  | false =>
    rw [hwithin] at hrest
    simp only [hwithin, Bool.false_eq_true, if_false] at h
    exact hrest h
  | true =>
    rw [hwithin] at hrest
    cases htransient : transientEmptyMetadataPath host subpath with
    | none =>
      simp only [hwithin, htransient, if_true] at h
      exact hrest h
    | some kind =>
      cases kind with
      | emptyFile =>
        simp only [hwithin, htransient, if_true] at h
        obtain ⟨b₁, hfile, h⟩ := bind_eq_ok.1 h
        cases h
        exact @appendEmptyFile_mounts env b b₁ subpath hfile
      | emptyDirectory =>
        simp only [hwithin, htransient, if_true] at h
        cases h
        exact mountsOf_push b _

theorem appendUnreadableRoot_mounts {unreadableRoot}
    (h : appendUnreadableRootArgs env host allowed b unreadableRoot = .ok b') :
    mountsOf b'.args = mountsOf b.args ++ unreadableMounts host allowed unreadableRoot := by
  unfold appendUnreadableRootArgs at h
  rw [unreadableMounts]
  cases hexists : host.pathExists unreadableRoot with
  | false =>
    rw [hexists] at h
    exact appendFirstMissing_mounts appendMissingEmptyFile_mounts h
  | true =>
    rw [hexists] at h
    simp only [Bool.not_true, Bool.false_eq_true, if_false, appendExistingUnreadablePathArgs] at h
    split at h
    · cases h
      have hparents : ∀ paths : List AbsolutePath,
          mountsOf (paths.flatMap fun path => mountTargetParentDirArgs host path unreadableRoot) = [] := by
        intro paths
        rw [mountsOf, List.filterMap_flatMap, List.flatMap_eq_nil_iff]
        exact fun path _ => mountsOf_parentDirArgs path unreadableRoot
      rw [mountsOf_push, mountsOf_append, mountsOf_append, hparents]
      rfl
    · rw [appendEmptyFile_mounts h, mountsOf_push]
      simp [mountsOf, BwrapArg.mount]

theorem foldlM_mounts {ι : Type} {step : BwrapArgs → ι → Except Text BwrapArgs} {part : ι → List HostMount} {items : List ι}
    (h : items.foldlM step b = .ok b')
    (hstep : ∀ b i b', step b i = .ok b' → mountsOf b'.args = mountsOf b.args ++ part i) :
    mountsOf b'.args = mountsOf b.args ++ items.flatMap part := by
  induction items generalizing b with
  | nil =>
    cases h
    simp
  | cons i items ih =>
    obtain ⟨b₁, hi, h⟩ := bind_eq_ok.1 h
    rw [ih h, hstep _ _ _ hi, List.flatMap_cons, List.append_assoc]

end

section
variable (policy : FileSystemSandboxPolicy) (host : Host) (cwd : AbsolutePath) (unreadableRoots allowed : List AbsolutePath)

/-- The unreadable roots in or under `w`. -/
def nestedUnreadableRoots (w : WritableRoot) : List AbsolutePath :=
  sortByDepth (unreadableRoots.filter fun path => w.root.isPrefixOf path)

/-- The mounts of a writable root: its bind, its read-only subpaths and the masks in it. -/
def rootMounts (w : WritableRoot) : List HostMount :=
  [⟨w.root, .hostReadWrite⟩] ++
    ((sortByDepth (plannedReadOnlySubpaths policy host cwd unreadableRoots w)).flatMap (readOnlyMounts host allowed) ++
      (nestedUnreadableRoots unreadableRoots w).flatMap (unreadableMounts host allowed))

/-- The unreadable roots of a plan without globs. -/
def plannedUnreadableRoots : List AbsolutePath :=
  (sortedAbsolutePaths (policy.getUnreadableRootsWithCwd host cwd)).destutter (· ≠ ·)

def allowedWritePaths : List AbsolutePath := (boundWritableRoots policy host cwd).map WritableRoot.root

/-- The masks of the unreadable roots around writable ones. -/
def ancestorMounts : List HostMount :=
  (sortByDepth (unreadableAncestors (plannedUnreadableRoots policy host cwd) (allowedWritePaths policy host cwd))).flatMap
    (unreadableMounts host (allowedWritePaths policy host cwd))

def plannedRootMounts : WritableRoot → List HostMount :=
  rootMounts policy host cwd (plannedUnreadableRoots policy host cwd) (allowedWritePaths policy host cwd)

/-- The mounts of all writable roots, the deeper ones later. -/
def rootsMounts : List HostMount :=
  (sortedByDepth (boundWritableRoots policy host cwd)).flatMap (plannedRootMounts policy host cwd)

/-- The masks of the unreadable roots apart from every writable one. -/
def rootlessMounts : List HostMount :=
  (sortByDepth (rootlessUnreadableRoots (plannedUnreadableRoots policy host cwd) (allowedWritePaths policy host cwd))).flatMap
    (unreadableMounts host (allowedWritePaths policy host cwd))

/-- The mounts of a plan without globs, part by part. -/
def planMounts : List HostMount :=
  mountsOf (baseArgs policy host cwd) ++ ancestorMounts policy host cwd ++ rootsMounts policy host cwd ++
    rootlessMounts policy host cwd

end

section
variable {env : BwrapEnv} {policy : FileSystemSandboxPolicy} {host : Host} {cwd : AbsolutePath} {b b' : BwrapArgs}
  {unreadableRoots allowed : List AbsolutePath} {globScanMaxDepth : Option Nat}

theorem appendWritableRoot_mounts {w}
    (h : appendWritableRootArgs env policy host cwd unreadableRoots allowed b w = .ok b') :
    mountsOf b'.args = mountsOf b.args ++ rootMounts policy host cwd unreadableRoots allowed w := by
  simp only [appendWritableRootArgs] at h
  generalize hparents : (maskingRoot unreadableRoots w.root).elim [] (mountTargetParentDirArgs host w.root) = parents at h
  have hnone : mountsOf parents = [] := by
    rw [← hparents]
    cases maskingRoot unreadableRoots w.root with
    | none => rfl
    | some anchor => exact mountsOf_parentDirArgs w.root anchor
  obtain ⟨b₁, hsubpaths, hnested⟩ := bind_eq_ok.1 h
  rw [foldlM_mounts hnested fun _ _ _ => appendUnreadableRoot_mounts,
    foldlM_mounts hsubpaths fun _ _ _ => appendReadOnlySubpath_mounts, mountsOf_push, mountsOf_append, hnone]
  simp [rootMounts, nestedUnreadableRoots, mountsOf, BwrapArg.mount]

/-- **The arguments as mounts.** Without globs, a plan's mounts are those of its four parts. -/
theorem createFilesystemArgs_mounts (hglobs : policy.getUnreadableGlobsWithCwd host cwd = [])
    (h : createFilesystemArgs env policy host cwd globScanMaxDepth = .ok b) :
    mountsOf b.args = planMounts policy host cwd := by
  simp only [createFilesystemArgs, hglobs] at h
  obtain ⟨expanded, hexpanded, h⟩ := bind_eq_ok.1 h
  obtain rfl : [] = expanded := by cases hexpanded; rfl
  rw [List.append_nil] at h
  obtain ⟨b₁, hancestors, h⟩ := bind_eq_ok.1 h
  obtain ⟨b₂, hroots, hrootless⟩ := bind_eq_ok.1 h
  rw [foldlM_mounts hrootless fun _ _ _ => appendUnreadableRoot_mounts, foldlM_mounts hroots fun _ _ _ => appendWritableRoot_mounts,
    foldlM_mounts hancestors fun _ _ _ => appendUnreadableRoot_mounts, planMounts]
  rfl

end

end Codex.Permissions
