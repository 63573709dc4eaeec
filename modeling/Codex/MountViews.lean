/-
What a plan's mounts show of a path that exists, against the policy.

Read-write, a path is shown by the bind of a writable root alone, and then no
read-only subpath or mask of that root is in the way and no deeper root: the
policy lets it be written (`canWrite_of_seen`).

A denied path is masked, and only a gitdir that the `.git` file of a later root points to
is bound over the mask.
-/
import Codex.MountPlanFacts

namespace Codex.Permissions

open MountLayers Specificity FileSystemAccessMode

/-! ## The parts of a plan, at a path that exists -/

section
variable {policy : FileSystemSandboxPolicy} {host : Host} {cwd p : AbsolutePath} {unreadableRoots allowed : List AbsolutePath}

theorem mem_sortByDepth {paths q} : q ∈ sortByDepth paths ↔ q ∈ paths :=
  List.mem_insertionSort _

variable {m : HostMount} {s u : AbsolutePath} {roots : List WritableRoot}

theorem mem_missingMounts {path} (hm : m ∈ missingMounts host allowed path) :
    m.source = .mask ∧ findFirstNonExistentComponent host path = some m.target := by
  rw [missingMounts] at hm
  cases hfirst : findFirstNonExistentComponent host path with
  | none => simp [hfirst] at hm
  | some firstMissing =>
    simp only [hfirst] at hm
    split at hm
    · obtain rfl := List.mem_singleton.1 hm
      exact ⟨rfl, rfl⟩
    · cases hm

theorem missingMounts_apart (hp : host.pathExists p = true) {path}
    (hm : m ∈ missingMounts host allowed path) : ¬ m.target <+: p :=
  firstNonExistent_apart (mem_missingMounts hm).2 hp

/-- The mounts of unreadable roots are masks, and one on the way to an existing path is at its root. -/
theorem mem_unreadableMounts {u : AbsolutePath} {m : HostMount} (hm : m ∈ unreadableMounts host allowed u) :
    m.source = .mask ∧ (host.pathExists p = true → m.target <+: p → m.target = u) := by
  rw [unreadableMounts] at hm
  split at hm
  · obtain rfl := List.mem_singleton.1 hm
    exact ⟨rfl, fun _ _ => rfl⟩
  · exact ⟨(mem_missingMounts hm).1, fun hp hmp => absurd hmp (missingMounts_apart hp hm)⟩

theorem mem_readOnlyMounts (hm : m ∈ readOnlyMounts host allowed s)
    (hp : host.pathExists p = true) (hmp : m.target <+: p) :
    m.target = s ∧ isWithinAllowedWritePaths s allowed = true ∧
      (m.source = .hostReadOnly ∧ transientEmptyMetadataPath host s = none ∨
        m.source = .mask ∧ transientEmptyMetadataPath host s ≠ none) := by
  rw [readOnlyMounts] at hm
  split at hm
  next h =>
    obtain rfl := List.mem_singleton.1 hm
    rw [Bool.and_eq_true] at h
    exact ⟨rfl, h.1, .inr ⟨rfl, by rw [← Option.isSome_iff_ne_none]; exact h.2⟩⟩
  next h =>
    split at hm
    · split at hm
      next hwithin =>
        obtain rfl := List.mem_singleton.1 hm
        exact ⟨rfl, hwithin, .inl ⟨rfl, by simpa [hwithin] using h⟩⟩
      next => cases hm
    · exact absurd hmp (missingMounts_apart hp hm)

theorem readOnlyMounts_source (hm : m ∈ readOnlyMounts host allowed s) : m.source ≠ .hostReadWrite := by
  rw [readOnlyMounts] at hm
  split at hm
  · obtain rfl := List.mem_singleton.1 hm
    simp
  · split at hm
    · split at hm
      · obtain rfl := List.mem_singleton.1 hm
        simp
      · cases hm
    · simp [(mem_missingMounts hm).1]

/-- A read-only subpath that exists where writing is allowed gets a mount. -/
theorem exists_readOnlyMount (hs : host.pathExists s = true)
    (hwithin : isWithinAllowedWritePaths s allowed = true) : ∃ m ∈ readOnlyMounts host allowed s, m.target = s := by
  rw [readOnlyMounts, if_pos hs, if_pos hwithin]
  split
  · exact ⟨_, List.mem_singleton_self _, rfl⟩
  · exact ⟨_, List.mem_singleton_self _, rfl⟩

/-- Masks of unreadable roots show nothing else. -/
theorem topmost_unreadable {us : List AbsolutePath} {s : MountSource}
    (h : topmost (us.flatMap (unreadableMounts host allowed)) p = some s) : s = .mask := by
  obtain ⟨m, hm, -, rfl⟩ := exists_of_topmost h
  obtain ⟨u, -, hu⟩ := List.mem_flatMap.1 hm
  exact (@mem_unreadableMounts host p allowed u m hu).1

theorem topmost_unreadable_of_mem {us : List AbsolutePath} (hu : u ∈ us) (hup : u <+: p)
    (hp : host.pathExists p = true) : topmost (us.flatMap (unreadableMounts host allowed)) p = some .mask := by
  have hmem : (⟨u, .mask⟩ : HostMount) ∈ us.flatMap (unreadableMounts host allowed) := by
    refine List.mem_flatMap.2 ⟨u, hu, ?_⟩
    rw [unreadableMounts, if_pos (pathExists_above hup hp)]
    exact List.mem_singleton_self _
  refine topmost_of_forall (fun m hm _ => ?_) hmem hup
  obtain ⟨u, -, hu⟩ := List.mem_flatMap.1 hm
  exact (@mem_unreadableMounts host p allowed u m hu).1

/-! ## What a plan is built from -/

theorem boundWritableRoots_eq (hglobs : policy.getUnreadableGlobsWithCwd host cwd = []) :
    boundWritableRoots policy host cwd = (policy.getWritableRootsWithCwd host cwd).filter fun w => host.pathExists w.root := by
  simp [boundWritableRoots, hglobs]

theorem mem_boundWritableRoots (hglobs : policy.getUnreadableGlobsWithCwd host cwd = []) {w}
    (hw : w ∈ boundWritableRoots policy host cwd) :
    w = policy.writableRoot host cwd w.root ∧ policy.mostSpecificEntry host cwd w.root = some ⟨w.root, .write⟩ := by
  rw [boundWritableRoots_eq hglobs, List.mem_filter] at hw
  cases hfull : policy.hasFullDiskWriteAccess with
  | false => exact (FileSystemSandboxPolicy.mem_writableRoots hfull).1 hw.1
  | true =>
    rw [FileSystemSandboxPolicy.getWritableRootsWithCwd, if_pos hfull] at hw
    cases hw.1

/-- A bound root on the way to a path is on the way to the entry that decides it. -/
theorem boundRoot_above (hglobs : policy.getUnreadableGlobsWithCwd host cwd = []) {w}
    (hw : w ∈ boundWritableRoots policy host cwd) {r}
    (hr : policy.mostSpecificEntry host cwd p = some r) (hwp : w.root <+: p) : w.root <+: r.path :=
  covers_mostSpecific hr (mem_of_mostSpecific (mem_boundWritableRoots hglobs hw).2) hwp

theorem mem_sortedByDepth {w} : w ∈ sortedByDepth roots ↔ w ∈ roots :=
  List.mem_insertionSort _

theorem mem_of_split {before after w v}
    (hsplit : sortedByDepth roots = before ++ w :: after) (hv : v ∈ w :: after) : v ∈ roots :=
  mem_sortedByDepth.1 (hsplit ▸ List.mem_append_right before hv)

/-- Of a plan's roots the deeper one comes later. -/
theorem mem_after_of_deeper {before after w w'}
    (hsplit : sortedByDepth roots = before ++ w :: after) (hw' : w' ∈ roots) (hdeeper : w.root.length < w'.root.length) :
    w' ∈ after := by
  have hsorted : (before ++ w :: after).Pairwise fun left right => left.root.length ≤ right.root.length := by
    rw [← hsplit]
    exact List.pairwise_insertionSort _ _
  have hmem : w' ∈ before ++ w :: after := hsplit ▸ mem_sortedByDepth.2 hw'
  rcases List.mem_append.1 hmem with hbefore | hrest
  · have hle := (List.pairwise_append.1 hsorted).2.2 w' hbefore w (List.mem_cons_self ..)
    omega
  · rcases List.mem_cons.1 hrest with rfl | hafter
    · omega
    · exact hafter

theorem mem_plannedUnreadableRoots :
    u ∈ plannedUnreadableRoots policy host cwd ↔ u ∈ policy.getUnreadableRootsWithCwd host cwd := by
  rw [plannedUnreadableRoots, mem_destutter_ne, mem_sortedAbsolutePaths]

/-- The metadata paths a plan leaves alone are missing ones. -/
theorem not_mem_missingAutoMetadata (hs : host.pathExists s = true) :
    s ∉ missingAutoMetadataReadOnlyProjectRootSubpaths policy host cwd := by
  intro h
  obtain ⟨entry, -, hentry⟩ := List.mem_filterMap.1 h
  split at hentry
  · simp only at hentry
    split at hentry
    next hmissing =>
      cases hentry
      rw [Bool.and_eq_true, hs] at hmissing
      cases hmissing.2
    next => cases hentry
  · cases hentry

theorem mem_plannedReadOnlySubpaths {w} : s ∈ plannedReadOnlySubpaths policy host cwd unreadableRoots w ↔
      (s ∈ w.readOnlySubpaths ∧ s ∉ missingAutoMetadataReadOnlyProjectRootSubpaths policy host cwd ∧ s ∉ unreadableRoots) ∨
      ∃ name ∈ w.protectedMetadataNames, shouldLeaveMissingGitForParentRepoDiscovery host w.root name = false ∧
        w.root ++ [name] = s := by
  simp [plannedReadOnlySubpaths, mem_foldl_pushUnique, maskedMetadataPaths, and_assoc]

theorem isWithin_iff : isWithinAllowedWritePaths s allowed = true ↔ ∃ a ∈ allowed, a <+: s := by
  simp [isWithinAllowedWritePaths]

theorem mem_nestedUnreadableRoots {w} :
    u ∈ nestedUnreadableRoots unreadableRoots w ↔ u ∈ unreadableRoots ∧ w.root <+: u := by
  simp [nestedUnreadableRoots, mem_sortByDepth]

/-! ## Read-write -/

theorem baseArgs_source (hm : m ∈ mountsOf (baseArgs policy host cwd)) : m.source ≠ .hostReadWrite := by
  obtain ⟨arg, harg, hmount⟩ := List.mem_filterMap.1 hm
  have harg' : (∃ path, arg = .roBind path) ∨ arg = .dev ["dev".toList] ∨ arg = .tmpfs [] := by
    unfold baseArgs at harg
    split at harg
    · rcases List.mem_pair.1 harg with rfl | rfl
      exacts [.inl ⟨[], rfl⟩, .inr (.inl rfl)]
    · rcases List.mem_append.1 harg with harg | harg
      · rcases List.mem_pair.1 harg with rfl | rfl
        exacts [.inr (.inr rfl), .inr (.inl rfl)]
      · obtain ⟨path, -, rfl⟩ := List.mem_map.1 harg
        exact .inl ⟨path, rfl⟩
  rcases harg' with ⟨path, rfl⟩ | rfl | rfl <;> cases hmount <;> simp

/-- The bind of a root shows `p`: none of the root's read-only subpaths and masks is in the way. -/
structure BindShows (policy : FileSystemSandboxPolicy) (host : Host) (cwd : AbsolutePath) (w : WritableRoot) (p : AbsolutePath) :
    Prop where
  above : w.root <+: p
  noSubpath : ∀ s ∈ plannedReadOnlySubpaths policy host cwd (plannedUnreadableRoots policy host cwd) w,
    ∀ m ∈ readOnlyMounts host (allowedWritePaths policy host cwd) s, ¬ m.target <+: p
  noMask : ∀ u ∈ nestedUnreadableRoots (plannedUnreadableRoots policy host cwd) w,
    ∀ m ∈ unreadableMounts host (allowedWritePaths policy host cwd) u, ¬ m.target <+: p

theorem rootMounts_readWrite {w : WritableRoot} (h : topmost (plannedRootMounts policy host cwd w) p = some .hostReadWrite) :
    BindShows policy host cwd w p := by
  rw [plannedRootMounts, rootMounts, topmost_append, topmost_append] at h
  cases hnested : topmost ((nestedUnreadableRoots (plannedUnreadableRoots policy host cwd) w).flatMap
      (unreadableMounts host (allowedWritePaths policy host cwd))) p with
  | some s =>
    rw [hnested, topmost_unreadable hnested] at h
    cases h
  | none =>
    rw [hnested, Option.none_or] at h
    cases hsubpaths : topmost ((sortByDepth (plannedReadOnlySubpaths policy host cwd (plannedUnreadableRoots policy host cwd)
        w)).flatMap (readOnlyMounts host (allowedWritePaths policy host cwd))) p with
    | some s =>
      rw [hsubpaths] at h
      cases h
      obtain ⟨m, hm, -, hsource⟩ := exists_of_topmost hsubpaths
      obtain ⟨s, -, hs⟩ := List.mem_flatMap.1 hm
      exact absurd hsource (readOnlyMounts_source hs)
    | none =>
      rw [hsubpaths, Option.none_or] at h
      obtain ⟨m, hm, hmp, -⟩ := exists_of_topmost h
      obtain rfl := List.mem_singleton.1 hm
      refine ⟨hmp, fun s hs m hm => ?_, fun u hu m hm => ?_⟩
      · exact topmost_eq_none.1 hsubpaths m (List.mem_flatMap.2 ⟨s, mem_sortByDepth.2 hs, hm⟩)
      · exact topmost_eq_none.1 hnested m (List.mem_flatMap.2 ⟨u, hu, hm⟩)

theorem ancestorMounts_mask {s : MountSource} (h : topmost (ancestorMounts policy host cwd) p = some s) : s = .mask :=
  topmost_unreadable h

theorem rootlessMounts_mask {s : MountSource} (h : topmost (rootlessMounts policy host cwd) p = some s) : s = .mask :=
  topmost_unreadable h

/-- Where a plan shows a path read-write, a root's mounts do, and no root after it is on the way. -/
theorem planMounts_readWrite (h : topmost (planMounts policy host cwd) p = some .hostReadWrite) :
    ∃ before w after, sortedByDepth (boundWritableRoots policy host cwd) = before ++ w :: after ∧
      topmost (plannedRootMounts policy host cwd w) p = some .hostReadWrite ∧ ∀ v ∈ after, ¬ v.root <+: p := by
  rw [planMounts, topmost_append, topmost_append, topmost_append] at h
  cases hrootless : topmost (rootlessMounts policy host cwd) p with
  | some s =>
    rw [hrootless, rootlessMounts_mask hrootless] at h
    cases h
  | none =>
    rw [hrootless, Option.none_or] at h
    cases hroots : topmost (rootsMounts policy host cwd) p with
    | some s =>
      rw [hroots] at h
      cases h
      obtain ⟨before, w, after, hsplit, hw, hafter⟩ := topmost_flatMap.1 hroots
      exact ⟨before, w, after, hsplit, hw, fun v hv =>
        topmost_eq_none.1 (hafter v hv) ⟨v.root, .hostReadWrite⟩ (List.mem_cons_self ..)⟩
    | none =>
      rw [hroots, Option.none_or] at h
      cases hancestors : topmost (ancestorMounts policy host cwd) p with
      | some s =>
        rw [hancestors, ancestorMounts_mask hancestors] at h
        cases h
      | none =>
        rw [hancestors, Option.none_or] at h
        obtain ⟨m, hm, -, hsource⟩ := exists_of_topmost h
        exact absurd hsource (baseArgs_source hm)

variable {w : WritableRoot} {f : AbsolutePath}

theorem BindShows.not_planned (h : BindShows policy host cwd w p) (hw : w ∈ boundWritableRoots policy host cwd)
    (hws : w.root <+: s) (hsp : s <+: p) (hp : host.pathExists p = true) :
    s ∉ plannedReadOnlySubpaths policy host cwd (plannedUnreadableRoots policy host cwd) w := by
  intro hsubpath
  obtain ⟨m, hm, htarget⟩ := exists_readOnlyMount (pathExists_above hsp hp)
    (isWithin_iff.2 ⟨w.root, List.mem_map_of_mem hw, hws⟩)
  exact h.noSubpath s hsubpath m hm (htarget ▸ hsp)

/-- What decides `p` where the bind of a root shows it is a write entry: any other entry below the
root is a read-only subpath or a mask of the root. -/
theorem BindShows.decided_write (hglobs : policy.getUnreadableGlobsWithCwd host cwd = []) (hkind : policy.kind = .restricted)
    (h : BindShows policy host cwd w p) (hw : w ∈ boundWritableRoots policy host cwd) (hp : host.pathExists p = true)
    {mode} (hr : policy.mostSpecificEntry host cwd p = some ⟨f, mode⟩) : mode = .write := by
  obtain ⟨hweq, hwown⟩ := mem_boundWritableRoots hglobs hw
  have hwf : w.root <+: f := boundRoot_above hglobs hw hr h.above
  have hfp : f <+: p := covers_of_mostSpecific hr
  have hfown : policy.mostSpecificEntry host cwd f = some ⟨f, mode⟩ := mostSpecific_own hr
  by_contra hmode
  have hne : f ≠ w.root := by
    rintro rfl
    rw [hwown] at hfown
    cases hfown
    exact hmode rfl
  by_cases hunreadable : f ∈ plannedUnreadableRoots policy host cwd
  · refine h.noMask f (mem_nestedUnreadableRoots.2 ⟨hunreadable, hwf⟩) ⟨f, .mask⟩ ?_ hfp
    rw [unreadableMounts, if_pos (pathExists_above hfp hp)]
    exact List.mem_singleton_self _
  · have hnotWrite : policy.canWritePathWithCwd host cwd f = false := by
      rw [← Bool.not_eq_true, FileSystemSandboxPolicy.canWrite_iff,
        FileSystemSandboxPolicy.resolveAccess_of_mostSpecific hkind hfown]
      exact fun hwrite => hmode hwrite.1
    have hsubpath : f ∈ w.readOnlySubpaths := by
      rw [hweq, FileSystemSandboxPolicy.mem_readOnlySubpaths]
      exact .inr ⟨⟨_, mem_of_mostSpecific hr, rfl, hmode⟩, hnotWrite, hne, hwf⟩
    have hkept : f ∉ missingAutoMetadataReadOnlyProjectRootSubpaths policy host cwd :=
      not_mem_missingAutoMetadata (pathExists_above hfp hp)
    exact h.not_planned hw hwf hfp hp (mem_plannedReadOnlySubpaths.2 (.inl ⟨hsubpath, hkept, hunreadable⟩))

/-- Under the root whose write entry decides `p`, protected metadata would be in the way. -/
theorem BindShows.canWrite (hglobs : policy.getUnreadableGlobsWithCwd host cwd = []) (hfull : policy.hasFullDiskWriteAccess = false)
    (h : BindShows policy host cwd w p) (hw : w ∈ boundWritableRoots policy host cwd) (hp : host.pathExists p = true)
    (hr : policy.mostSpecificEntry host cwd p = some ⟨w.root, .write⟩) : policy.canWritePathWithCwd host cwd p = true := by
  have hkind := FileSystemSandboxPolicy.restricted_of_not_fullWrite hfull
  by_cases hne : w.root = p
  · rw [← hne]
    exact FileSystemSandboxPolicy.canWrite_own hkind hr
  · obtain ⟨name, hname⟩ := exists_snoc_prefix h.above hne
    rw [FileSystemSandboxPolicy.canWrite_child hkind hr hname hfull]
    intro hmetadata
    by_contra hdenied
    have hprotected : name ∈ w.protectedMetadataNames := by
      rw [(mem_boundWritableRoots hglobs hw).1]
      exact FileSystemSandboxPolicy.mem_protectedMetadataNames.2 ⟨hmetadata, by simpa using hdenied⟩
    have hkept : shouldLeaveMissingGitForParentRepoDiscovery host w.root name = false := by
      simp [shouldLeaveMissingGitForParentRepoDiscovery, pathExists_above hname hp]
    exact h.not_planned hw (List.prefix_append _ _) hname hp
      (mem_plannedReadOnlySubpaths.2 (.inr ⟨name, hprotected, hkept, rfl⟩))

end

/-- **A plan makes nothing writable that the policy protects**: a path that exists and that the mounts show
read-write may be written. -/
theorem canWrite_of_seen (env : BwrapEnv) (policy : FileSystemSandboxPolicy) (host : Host) (cwd : AbsolutePath)
    (globScanMaxDepth : Option Nat) (b : BwrapArgs) (p : AbsolutePath) (hfull : policy.hasFullDiskWriteAccess = false)
    (hnoGlobs : NoGlobs policy.entries) (hargs : createFilesystemArgs env policy host cwd globScanMaxDepth = .ok b)
    (hp : host.pathExists p = true) (hseen : seenAt b.args p = some .hostReadWrite) :
    policy.canWritePathWithCwd host cwd p = true := by
  have hkind := FileSystemSandboxPolicy.restricted_of_not_fullWrite hfull
  have hglobs : policy.getUnreadableGlobsWithCwd host cwd = [] := FileSystemSandboxPolicy.getUnreadableGlobs_eq_nil hnoGlobs
  rw [seenAt, createFilesystemArgs_mounts hglobs hargs] at hseen
  obtain ⟨before, w, after, hsplit, hseenRoot, hafter⟩ := planMounts_readWrite hseen
  have hshows := rootMounts_readWrite hseenRoot
  have hw : w ∈ boundWritableRoots policy host cwd := mem_of_split hsplit (List.mem_cons_self ..)
  obtain ⟨⟨f, mode⟩, hr, -⟩ := exists_mostSpecific (mem_of_mostSpecific (mem_boundWritableRoots hglobs hw).2) hshows.above
  obtain rfl := hshows.decided_write hglobs hkind hw hp hr
  -- a write entry below the root would have a bind of its own after it
  have hfw : w.root = f := by
    have hwf : w.root <+: f := boundRoot_above hglobs hw hr hshows.above
    have hfp : f <+: p := covers_of_mostSpecific hr
    by_contra hne
    have hdeeper : w.root.length < f.length := lt_of_le_of_ne hwf.length_le fun hlen => hne (hwf.eq_of_length hlen)
    have hmem : policy.writableRoot host cwd f ∈ boundWritableRoots policy host cwd := by
      rw [boundWritableRoots_eq hglobs, List.mem_filter]
      exact ⟨FileSystemSandboxPolicy.writableRoot_mem hfull hr, pathExists_above hfp hp⟩
    exact hafter _ (mem_after_of_deeper hsplit hmem hdeeper) hfp
  subst hfw
  exact hshows.canWrite hglobs hfull hw hp hr

/-- A result that succeeds with a value that passes `q`. -/
theorem exists_ok_of_any {α : Type} {result : Except Text α} {q : α → Bool} (h : result.toOption.any q = true) :
    ∃ a, result = .ok a ∧ q a = true := by
  cases result with
  | error err => cases h
  | ok a => exact ⟨a, rfl, h⟩

/-- A file in a writable root with metadata and a denied directory. -/
theorem canWrite_of_seen_nested :
    let env : BwrapEnv := ⟨.ok 3, fun _ => ⟨0, 0⟩, fun _ _ _ => .ok []⟩
    let policy : FileSystemSandboxPolicy := .restricted
      [.new (.special .root) .read, .new (.special (.projectRoots none)) .write, .new (.path [['w'], ['k']]) .deny]
    let host : Host := .ofFiles [([['w']], .dir), ([['w'], dotGit], .dir), ([['w'], ['k']], .dir), ([['w'], ['s']], .emptyFile)]
      none none (by decide)
    ∃ b, createFilesystemArgs env policy host [['w']] none = .ok b ∧ seenAt b.args [['w'], ['s']] = some .hostReadWrite ∧
      policy.canWritePathWithCwd host [['w']] [['w'], ['s']] = true := by
  intro env policy host
  have hany : (createFilesystemArgs env policy host [['w']] none).toOption.any
      (fun b => seenAt b.args [['w'], ['s']] == some .hostReadWrite) = true := by decide
  obtain ⟨b, hargs, hseen⟩ := exists_ok_of_any hany
  rw [beq_iff_eq] at hseen
  have hnoGlobs : NoGlobs policy.entries := by
    simp [NoGlobs, policy, FileSystemSandboxPolicy.restricted, FileSystemSandboxEntry.new]
  exact ⟨b, hargs, hseen, canWrite_of_seen env policy host [['w']] none b _ (by decide) hnoGlobs hargs (by decide) hseen⟩

/-! ## Denied paths -/

section
variable (policy : FileSystemSandboxPolicy) (host : Host) (cwd : AbsolutePath)

/-- The gitdir that the `.git` file of a root names, where it gets a mount of its own: no entry is on
it, and it is in or under a bound root. -/
def boundGitdirs (w : WritableRoot) : List AbsolutePath :=
  (gitdirOfRoot host w.root).filter fun gitdir =>
    !hasExplicitResolvedPathEntry (policy.resolvedEntriesWithCwd host cwd) gitdir &&
      isWithinAllowedWritePaths gitdir (allowedWritePaths policy host cwd)

/-- After all roots that enclose the denied path `d`, a root comes whose gitdir has `p` in or under
it and is not an empty metadata path, and it is the last such root. -/
def GitdirUncovers (d p : AbsolutePath) : Prop :=
  ∃ before w after, sortedByDepth (boundWritableRoots policy host cwd) = before ++ w :: after ∧
    (∀ v ∈ w :: after, ¬ v.root <+: d) ∧
    (∃ gitdir ∈ boundGitdirs policy host cwd w, gitdir <+: p ∧ transientEmptyMetadataPath host gitdir = none) ∧
    ∀ v ∈ after, ∀ gitdir ∈ boundGitdirs policy host cwd v, ¬ gitdir <+: p

end

variable {gitdir : AbsolutePath}

section
variable {policy : FileSystemSandboxPolicy} {host : Host} {cwd p d : AbsolutePath} {w : WritableRoot}

theorem mem_boundGitdirs : gitdir ∈ boundGitdirs policy host cwd w ↔
    gitdir ∈ gitdirOfRoot host w.root ∧ (∀ r ∈ policy.resolvedEntriesWithCwd host cwd, r.path ≠ gitdir) ∧
      ∃ v ∈ boundWritableRoots policy host cwd, v.root <+: gitdir := by
  simp [boundGitdirs, hasExplicitResolvedPathEntry, isWithin_iff, allowedWritePaths]

/-- A `.git` file names one gitdir at most. -/
theorem eq_of_gitdirOfRoot {root g g'} (hg : g ∈ gitdirOfRoot host root) (hg' : g' ∈ gitdirOfRoot host root) :
    g = g' := by
  rw [gitdirOfRoot] at hg hg'
  split at hg
  next h =>
    rw [if_pos h, Option.mem_toList] at hg'
    rw [Option.mem_toList] at hg
    exact Option.mem_unique hg hg'
  next => cases hg

theorem gitdir_mem_defaultReadOnlySubpaths {root} {protectMissing : Bool}
    (h : gitdir ∈ gitdirOfRoot host root) : gitdir ∈ defaultReadOnlySubpathsForWritableRoot host root protectMissing := by
  have hfile : host.isFile (root ++ [dotGit]) = true := by
    rw [gitdirOfRoot] at h
    split at h
    next hpointer => exact (Bool.and_eq_true_iff.1 hpointer).1
    next => cases h
  simp [defaultReadOnlySubpathsForWritableRoot, dedupAbsolutePaths, hfile, h]

theorem mem_rootMounts_apart (hglobs : policy.getUnreadableGlobsWithCwd host cwd = [])
    (hw : w ∈ boundWritableRoots policy host cwd) (hp : host.pathExists p = true) (hwp : ¬ w.root <+: p) {m}
    (hm : m ∈ plannedRootMounts policy host cwd w) (hmp : m.target <+: p) :
    m.target ∈ boundGitdirs policy host cwd w ∧
      (m.source = .hostReadOnly ∧ transientEmptyMetadataPath host m.target = none ∨
        m.source = .mask ∧ transientEmptyMetadataPath host m.target ≠ none) := by
  rw [plannedRootMounts, rootMounts, List.mem_append, List.mem_append] at hm
  rcases hm with hbind | hsubpath | hnested
  · obtain rfl := List.mem_singleton.1 hbind
    exact absurd hmp hwp
  · obtain ⟨s, hs, hm⟩ := List.mem_flatMap.1 hsubpath
    obtain ⟨rfl, hwithin, hsource⟩ := mem_readOnlyMounts hm hp hmp
    refine ⟨?_, hsource⟩
    obtain ⟨a, ha, hamp⟩ := isWithin_iff.1 hwithin
    obtain ⟨v, hv, rfl⟩ := List.mem_map.1 ha
    rcases mem_plannedReadOnlySubpaths.1 (mem_sortByDepth.1 hs) with ⟨hmem, -, -⟩ | ⟨name, -, -, hname⟩
    · rw [(mem_boundWritableRoots hglobs hw).1, FileSystemSandboxPolicy.mem_readOnlySubpaths] at hmem
      rcases hmem with ⟨hdefault, hnoEntry⟩ | ⟨-, -, -, hroot⟩
      · rcases FileSystemSandboxPolicy.mem_defaultReadOnlySubpaths hdefault with ⟨name, -, hname⟩ | hgitdir
        · exact absurd ((hname ▸ List.prefix_append _ _).trans hmp) hwp
        · exact mem_boundGitdirs.2 ⟨hgitdir, hnoEntry, v, hv, hamp⟩
      · exact absurd (hroot.trans hmp) hwp
    · exact absurd ((hname ▸ List.prefix_append _ _).trans hmp) hwp
  · obtain ⟨u, hu, hm⟩ := List.mem_flatMap.1 hnested
    have htarget := (mem_unreadableMounts hm).2 hp hmp
    exact absurd ((mem_nestedUnreadableRoots.1 hu).2.trans (htarget ▸ hmp)) hwp

theorem exists_gitdirMount (hglobs : policy.getUnreadableGlobsWithCwd host cwd = []) (hkind : policy.kind = .restricted)
    (hw : w ∈ boundWritableRoots policy host cwd) (hgitdir : gitdir ∈ boundGitdirs policy host cwd w)
    (hexists : host.pathExists gitdir = true) :
    ∃ m ∈ plannedRootMounts policy host cwd w, m.target = gitdir := by
  obtain ⟨hnamed, hnoEntry, v, hv, hvg⟩ := mem_boundGitdirs.1 hgitdir
  have hsubpath : gitdir ∈ w.readOnlySubpaths := by
    rw [(mem_boundWritableRoots hglobs hw).1, FileSystemSandboxPolicy.mem_readOnlySubpaths]
    exact .inl ⟨gitdir_mem_defaultReadOnlySubpaths hnamed, hnoEntry⟩
  have hkept : gitdir ∉ missingAutoMetadataReadOnlyProjectRootSubpaths policy host cwd := not_mem_missingAutoMetadata hexists
  have hreadable : gitdir ∉ plannedUnreadableRoots policy host cwd := fun hunreadable => by
    have hown := (FileSystemSandboxPolicy.mem_unreadableRoots hkind).1 (mem_plannedUnreadableRoots.1 hunreadable)
    exact hnoEntry _ (mem_of_mostSpecific hown.2) rfl
  have hplanned := mem_plannedReadOnlySubpaths.2 (.inl ⟨hsubpath, hkept, hreadable⟩)
  obtain ⟨m, hm, htarget⟩ := exists_readOnlyMount hexists (isWithin_iff.2 ⟨v.root, List.mem_map_of_mem hv, hvg⟩)
  refine ⟨m, ?_, htarget⟩
  rw [plannedRootMounts, rootMounts, List.mem_append, List.mem_append]
  exact .inr (.inl (List.mem_flatMap.2 ⟨gitdir, mem_sortByDepth.2 hplanned, hm⟩))

/-! ### The plan at a denied path -/

theorem denied_mem_unreadable (hkind : policy.kind = .restricted)
    (hdeny : policy.mostSpecificEntry host cwd p = some ⟨d, .deny⟩) (hd : d ≠ []) : d ∈ plannedUnreadableRoots policy host cwd :=
  mem_plannedUnreadableRoots.2 ((FileSystemSandboxPolicy.mem_unreadableRoots hkind).2 ⟨hd, mostSpecific_own hdeny⟩)

theorem rootMounts_enclosed (hd : d ∈ plannedUnreadableRoots policy host cwd) (hwd : w.root <+: d) (hdp : d <+: p)
    (hp : host.pathExists p = true) : topmost (plannedRootMounts policy host cwd w) p = some .mask := by
  rw [plannedRootMounts, rootMounts, topmost_append, topmost_append,
    topmost_unreadable_of_mem (mem_nestedUnreadableRoots.2 ⟨hd, hwd⟩) hdp hp]
  rfl

/-- A root that does not enclose `p` shows nothing of it, unless its gitdir has `p` in or under it. -/
theorem rootMounts_apart (hglobs : policy.getUnreadableGlobsWithCwd host cwd = []) (hkind : policy.kind = .restricted)
    (hp : host.pathExists p = true) (hw : w ∈ boundWritableRoots policy host cwd) (hwp : ¬ w.root <+: p) :
    topmost (plannedRootMounts policy host cwd w) p = none ↔ ∀ gitdir ∈ boundGitdirs policy host cwd w, ¬ gitdir <+: p := by
  rw [topmost_eq_none]
  constructor
  · intro hnone gitdir hgitdir hgp
    obtain ⟨m, hm, rfl⟩ := exists_gitdirMount hglobs hkind hw hgitdir (pathExists_above hgp hp)
    exact hnone m hm hgp
  · exact fun hnone m hm hmp => hnone _ (mem_rootMounts_apart hglobs hw hp hwp hm hmp).1 hmp

/-- A bound gitdir with `p` in or under it is in a root that encloses what decides `p`. -/
theorem gitdir_enclosed (hglobs : policy.getUnreadableGlobsWithCwd host cwd = [])
    (hdeny : policy.mostSpecificEntry host cwd p = some ⟨d, .deny⟩)
    (hgitdir : gitdir ∈ boundGitdirs policy host cwd w) (hgp : gitdir <+: p) :
    ∃ v ∈ boundWritableRoots policy host cwd, v.root <+: d := by
  obtain ⟨-, -, v, hv, hvg⟩ := mem_boundGitdirs.1 hgitdir
  exact ⟨v, hv, boundRoot_above hglobs hv hdeny (hvg.trans hgp)⟩

/-- Where no root encloses the denied path, a mask before or after all roots hides it. -/
theorem planMounts_apart (hglobs : policy.getUnreadableGlobsWithCwd host cwd = []) (hkind : policy.kind = .restricted)
    (hp : host.pathExists p = true) (hdeny : policy.mostSpecificEntry host cwd p = some ⟨d, .deny⟩) (hd : d ≠ [])
    (hapart : ∀ v ∈ boundWritableRoots policy host cwd, ¬ v.root <+: d) :
    topmost (planMounts policy host cwd) p = some .mask := by
  have hmem := denied_mem_unreadable hkind hdeny hd
  have hdp : d <+: p := covers_of_mostSpecific hdeny
  have hroots : topmost (rootsMounts policy host cwd) p = none := by
    rw [topmost_eq_none]
    intro m hm hmp
    obtain ⟨v, hv, hm⟩ := List.mem_flatMap.1 hm
    rw [mem_sortedByDepth] at hv
    have hvp : ¬ v.root <+: p := fun hvp => hapart v hv (boundRoot_above hglobs hv hdeny hvp)
    obtain ⟨v', hv', hv'd⟩ := gitdir_enclosed hglobs hdeny (mem_rootMounts_apart hglobs hv hp hvp hm hmp).1 hmp
    exact hapart v' hv' hv'd
  rw [planMounts, topmost_append, topmost_append, hroots, Option.none_or, topmost_append]
  by_cases hbelow : ∃ v ∈ boundWritableRoots policy host cwd, d <+: v.root
  · have hancestor : d ∈ unreadableAncestors (plannedUnreadableRoots policy host cwd) (allowedWritePaths policy host cwd) := by
      simpa [unreadableAncestors, allowedWritePaths, hmem] using ⟨hapart, hbelow⟩
    have hmask : topmost (ancestorMounts policy host cwd) p = some .mask :=
      topmost_unreadable_of_mem (mem_sortByDepth.2 hancestor) hdp hp
    rw [hmask, Option.some_or]
    cases hrest : topmost (rootlessMounts policy host cwd) p with
    | none => rfl
    | some s => rw [rootlessMounts_mask hrest, Option.some_or]
  · have hrootless : d ∈ rootlessUnreadableRoots (plannedUnreadableRoots policy host cwd) (allowedWritePaths policy host cwd) := by
      rw [rootlessUnreadableRoots, List.mem_filter, Bool.not_eq_true', List.any_eq_false]
      refine ⟨hmem, fun root hroot => ?_⟩
      obtain ⟨v, hv, rfl⟩ := List.mem_map.1 hroot
      simpa using ⟨hapart v hv, fun hdv => hbelow ⟨v, hv, hdv⟩⟩
    have hmask : topmost (rootlessMounts policy host cwd) p = some .mask :=
      topmost_unreadable_of_mem (mem_sortByDepth.2 hrootless) hdp hp
    rw [hmask, Option.some_or]

theorem planMounts_enclosed (hkind : policy.kind = .restricted) (hp : host.pathExists p = true)
    (hdeny : policy.mostSpecificEntry host cwd p = some ⟨d, .deny⟩)
    (henclosed : ∃ v ∈ boundWritableRoots policy host cwd, v.root <+: d) :
    ∃ s, topmost (rootsMounts policy host cwd) p = some s ∧ topmost (planMounts policy host cwd) p = some s := by
  obtain ⟨v, hv, hvd⟩ := henclosed
  have hrootless : topmost (rootlessMounts policy host cwd) p = none := by
    rw [topmost_eq_none]
    intro m hm hmp
    obtain ⟨u, hu, hm⟩ := List.mem_flatMap.1 hm
    obtain rfl := (mem_unreadableMounts hm).2 hp hmp
    -- the deny entry at the target is above `d`, so the target and the root are on one way
    rw [mem_sortByDepth, rootlessUnreadableRoots, List.mem_filter] at hu
    have hown := ((FileSystemSandboxPolicy.mem_unreadableRoots hkind).1 (mem_plannedUnreadableRoots.1 hu.1)).2
    have hud : m.target <+: d := covers_mostSpecific hdeny (mem_of_mostSpecific hown) hmp
    have hapart : ∀ v ∈ boundWritableRoots policy host cwd, ¬ v.root <+: m.target ∧ ¬ m.target <+: v.root := by
      simpa [allowedWritePaths] using hu.2
    rcases List.prefix_or_prefix_of_prefix hvd hud with hvu | huv
    · exact (hapart v hv).1 hvu
    · exact (hapart v hv).2 huv
  have hbind : topmost (rootsMounts policy host cwd) p ≠ none := by
    have hmem : (⟨v.root, .hostReadWrite⟩ : HostMount) ∈ rootsMounts policy host cwd :=
      List.mem_flatMap.2 ⟨v, mem_sortedByDepth.2 hv, List.mem_cons_self ..⟩
    exact topmost_ne_none hmem (hvd.trans (covers_of_mostSpecific hdeny))
  obtain ⟨s, hs⟩ := Option.ne_none_iff_exists'.1 hbind
  refine ⟨s, hs, ?_⟩
  rw [planMounts, topmost_append, hrootless, Option.none_or, topmost_append, hs, Option.some_or]

theorem planMounts_uncovered (hglobs : policy.getUnreadableGlobsWithCwd host cwd = []) (hkind : policy.kind = .restricted)
    (hp : host.pathExists p = true) (hdeny : policy.mostSpecificEntry host cwd p = some ⟨d, .deny⟩)
    (huncovers : GitdirUncovers policy host cwd d p) : topmost (planMounts policy host cwd) p = some .hostReadOnly := by
  obtain ⟨before, w, after, hsplit, hapart, ⟨gitdir, hgitdir, hgp, hnotEmpty⟩, hafter⟩ := huncovers
  have hbound : ∀ v ∈ w :: after, v ∈ boundWritableRoots policy host cwd ∧ ¬ v.root <+: p := by
    intro v hv
    have hmem : v ∈ boundWritableRoots policy host cwd := mem_of_split hsplit hv
    exact ⟨hmem, fun hvp => hapart v hv (boundRoot_above hglobs hmem hdeny hvp)⟩
  have hroots : topmost (rootsMounts policy host cwd) p = some .hostReadOnly := by
    refine topmost_flatMap.2 ⟨before, w, after, hsplit, ?_, fun v hv => ?_⟩
    · obtain ⟨hw, hwp⟩ := hbound w (List.mem_cons_self ..)
      obtain ⟨m, hm, rfl⟩ := exists_gitdirMount hglobs hkind hw hgitdir (pathExists_above hgp hp)
      refine topmost_of_forall (fun m' hm' hm'p => ?_) hm hgp
      obtain ⟨hgitdir', hsource⟩ := mem_rootMounts_apart hglobs hw hp hwp hm' hm'p
      rw [eq_of_gitdirOfRoot (mem_boundGitdirs.1 hgitdir').1 (mem_boundGitdirs.1 hgitdir).1] at hsource
      rcases hsource with ⟨hreadOnly, -⟩ | ⟨-, hempty⟩
      · exact hreadOnly
      · exact absurd hnotEmpty hempty
    · obtain ⟨hv', hvp⟩ := hbound v (List.mem_cons_of_mem w hv)
      exact (rootMounts_apart hglobs hkind hp hv' hvp).2 (hafter v hv)
  obtain ⟨s, hs, hseen⟩ := planMounts_enclosed hkind hp hdeny (gitdir_enclosed hglobs hdeny hgitdir hgp)
  rw [hseen, ← hs, hroots]

theorem planMounts_masked (hglobs : policy.getUnreadableGlobsWithCwd host cwd = []) (hkind : policy.kind = .restricted)
    (hp : host.pathExists p = true) (hdeny : policy.mostSpecificEntry host cwd p = some ⟨d, .deny⟩) (hd : d ≠ [])
    (hcovered : ¬ GitdirUncovers policy host cwd d p) : topmost (planMounts policy host cwd) p = some .mask := by
  by_cases henclosed : ∃ v ∈ boundWritableRoots policy host cwd, v.root <+: d
  swap
  · exact planMounts_apart hglobs hkind hp hdeny hd fun v hv hvd => henclosed ⟨v, hv, hvd⟩
  have hdp : d <+: p := covers_of_mostSpecific hdeny
  obtain ⟨s, hs, hseen⟩ := planMounts_enclosed hkind hp hdeny henclosed
  obtain ⟨before, w, after, hsplit, hw, hafter⟩ := topmost_flatMap.1 hs
  have hbound : w ∈ boundWritableRoots policy host cwd := mem_of_split hsplit (List.mem_cons_self ..)
  rw [hseen]
  by_cases hwd : w.root <+: d
  · rw [← hw, rootMounts_enclosed (denied_mem_unreadable hkind hdeny hd) hwd hdp hp]
  · -- only the gitdir of such a root is on the way
    have hwp : ¬ w.root <+: p := fun hwp => hwd (boundRoot_above hglobs hbound hdeny hwp)
    obtain ⟨m, hm, hmp, rfl⟩ := exists_of_topmost hw
    obtain ⟨hgitdir, hsource⟩ := mem_rootMounts_apart hglobs hbound hp hwp hm hmp
    rcases hsource with ⟨-, hnotEmpty⟩ | ⟨hmask, -⟩
    · have hafter' : ∀ v ∈ after, ¬ v.root <+: p := fun v hv =>
        topmost_eq_none.1 (hafter v hv) ⟨v.root, .hostReadWrite⟩ (List.mem_cons_self ..)
      have hnone : ∀ v ∈ after, ∀ gitdir ∈ boundGitdirs policy host cwd v, ¬ gitdir <+: p := fun v hv =>
        (rootMounts_apart hglobs hkind hp (mem_of_split hsplit (List.mem_cons_of_mem w hv)) (hafter' v hv)).1 (hafter v hv)
      have hapart : ∀ v ∈ w :: after, ¬ v.root <+: d := by
        intro v hv hvd
        rcases List.mem_cons.1 hv with rfl | hv
        · exact hwd hvd
        · exact hafter' v hv (hvd.trans hdp)
      exact absurd ⟨before, w, after, hsplit, hapart, ⟨m.target, hgitdir, hmp, hnotEmpty⟩, hnone⟩ hcovered
    · rw [hmask]

end

/-- **When a plan hides what the policy denies.** Of a restricted policy without globs, a path that
exists and that a deny entry below the root decides is hidden unless a gitdir uncovers it. -/
theorem deniedHidden_iff (env : BwrapEnv) (policy : FileSystemSandboxPolicy) (host : Host) (cwd : AbsolutePath)
    (globScanMaxDepth : Option Nat) (b : BwrapArgs) (p d : AbsolutePath) (hkind : policy.kind = .restricted)
    (hnoGlobs : NoGlobs policy.entries) (hargs : createFilesystemArgs env policy host cwd globScanMaxDepth = .ok b)
    (hp : host.pathExists p = true) (hdeny : policy.mostSpecificEntry host cwd p = some ⟨d, .deny⟩) (hd : d ≠ []) :
    (seenAt b.args p ≠ some .hostReadOnly ∧ seenAt b.args p ≠ some .hostReadWrite) ↔ ¬ GitdirUncovers policy host cwd d p := by
  have hglobs : policy.getUnreadableGlobsWithCwd host cwd = [] := FileSystemSandboxPolicy.getUnreadableGlobs_eq_nil hnoGlobs
  rw [seenAt, createFilesystemArgs_mounts hglobs hargs]
  constructor
  · rintro ⟨hhidden, -⟩ huncovers
    exact hhidden (planMounts_uncovered hglobs hkind hp hdeny huncovers)
  · intro hcovered
    rw [planMounts_masked hglobs hkind hp hdeny hd hcovered]
    exact ⟨by simp, by simp⟩

/-- A denied directory in the gitdir of a root that comes before the one around it. -/
theorem deniedHidden_iff_earlier :
    let env : BwrapEnv := ⟨.ok 3, fun _ => ⟨0, 0⟩, fun _ _ _ => .ok []⟩
    let policy : FileSystemSandboxPolicy := .restricted
      [.new (.path [['b']]) .write, .new (.path [['a']]) .write, .new (.path [['a'], ['g'], ['k']]) .deny]
    let host : Host := .ofFiles [([['a']], .dir), ([['a'], ['g']], .dir), ([['a'], ['g'], ['k']], .dir), ([['b']], .dir),
      ([['b'], dotGit], .file (some "gitdir: /a/g".toList))] none none (by decide)
    ∃ b, createFilesystemArgs env policy host [] none = .ok b ∧
      ((seenAt b.args [['a'], ['g'], ['k']] ≠ some .hostReadOnly ∧ seenAt b.args [['a'], ['g'], ['k']] ≠ some .hostReadWrite) ↔
        ¬ GitdirUncovers policy host [] [['a'], ['g'], ['k']] [['a'], ['g'], ['k']]) := by
  intro env policy host
  have hany : (createFilesystemArgs env policy host [] none).toOption.any (fun _ => true) = true := by decide
  obtain ⟨b, hargs, -⟩ := exists_ok_of_any hany
  have hnoGlobs : NoGlobs policy.entries := by
    simp [NoGlobs, policy, FileSystemSandboxPolicy.restricted, FileSystemSandboxEntry.new]
  exact ⟨b, hargs, deniedHidden_iff env policy host [] none b _ _ rfl hnoGlobs hargs (by decide) (by decide) (by decide)⟩

/-- The `.git` file of `/b` points to `/a/g`, so a read-only bind of `/a/g` covers the mask of `/a/g/k`. -/
theorem deniedHidden_iff_later :
    let env : BwrapEnv := ⟨.ok 3, fun _ => ⟨0, 0⟩, fun _ _ _ => .ok []⟩
    let policy : FileSystemSandboxPolicy := .restricted
      [.new (.path [['a']]) .write, .new (.path [['b']]) .write, .new (.path [['a'], ['g'], ['k']]) .deny]
    let host : Host := .ofFiles [([['a']], .dir), ([['a'], ['g']], .dir), ([['a'], ['g'], ['k']], .dir), ([['b']], .dir),
      ([['b'], dotGit], .file (some "gitdir: /a/g".toList))] none none (by decide)
    NoGlobs policy.entries ∧ host.pathExists [['a'], ['g'], ['k']] = true ∧
      policy.mostSpecificEntry host [] [['a'], ['g'], ['k']] = some ⟨[['a'], ['g'], ['k']], .deny⟩ ∧
      ∃ b, createFilesystemArgs env policy host [] none = .ok b ∧ seenAt b.args [['a'], ['g'], ['k']] = some .hostReadOnly := by
  intro env policy host
  have hany : (createFilesystemArgs env policy host [] none).toOption.any
      (fun b => seenAt b.args [['a'], ['g'], ['k']] == some .hostReadOnly) = true := by decide
  obtain ⟨b, hargs, hseen⟩ := exists_ok_of_any hany
  rw [beq_iff_eq] at hseen
  refine ⟨?_, by decide, by decide, b, hargs, hseen⟩
  simp [NoGlobs, policy, FileSystemSandboxPolicy.restricted, FileSystemSandboxEntry.new]

end Codex.Permissions
