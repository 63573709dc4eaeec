/-
Policies with equal semantic signatures, and the access they give.

Without full-disk write access the signature says it all: what can be read is
fixed by the readable, writable and unreadable roots (`canRead_congr`), and
what can be written by the writable roots with their read-only subpaths and
protected names (`canWrite_iff_root`).

With full-disk write access it does not: where `/tmp` is no directory a write entry on
`:slash_tmp` resolves to nothing, but is taken to override a read entry on `/tmp`
(`TmpKeptReadOnly`).
-/
import Codex.PermissionFacts

namespace Codex.Permissions

open Specificity FileSystemAccessMode

variable {policy other : FileSystemSandboxPolicy} {host : Host} {cwd : AbsolutePath}

/-! ## Full-disk access -/

namespace FileSystemSandboxPolicy

theorem hasRootAccess_iff {predicate : FileSystemAccessMode → Bool} :
    policy.hasRootAccess predicate = true ↔ policy.kind = .restricted ∧
      ∃ entry ∈ policy.entries, entry.path = .special .root ∧ predicate entry.access = true := by
  simp [hasRootAccess]

/-- A full-disk policy has an entry on the root, which is on the way to every path. -/
theorem exists_root_entry {predicate : FileSystemAccessMode → Bool} (h : policy.hasRootAccess predicate = true) :
    ∃ mode, predicate mode = true ∧ ⟨[], mode⟩ ∈ policy.resolvedEntriesWithCwd host cwd := by
  obtain ⟨-, entry, hmem, hpath, hpredicate⟩ := hasRootAccess_iff.1 h
  exact ⟨entry.access, hpredicate, mem_resolvedEntries_of hmem (by rw [hpath]; rfl) rfl⟩

theorem canRead_of_fullRead (h : policy.hasFullDiskReadAccess = true) (path : AbsolutePath) :
    policy.canReadPathWithCwd host cwd path = true := by
  rw [canRead_iff]
  cases hkind : policy.kind with
  | unrestricted => simp [resolveAccessWithCwd, hkind]
  | externalSandbox => simp [resolveAccessWithCwd, hkind]
  | restricted =>
    simp only [hasFullDiskReadAccess, hkind, Bool.and_eq_true, Bool.not_eq_true'] at h
    obtain ⟨mode, -, hroot⟩ := @exists_root_entry policy host cwd _ h.1
    obtain ⟨r, hr, -⟩ := exists_mostSpecific hroot (@List.nil_prefix _ path)
    rw [resolveAccess_of_mostSpecific hkind hr]
    intro hdeny
    have hdenied := hasDenied_of_mem hkind (mem_of_mostSpecific hr) hdeny
    rw [h.2] at hdenied
    cases hdenied

theorem hasSameTargetWriteOverride_iff {entry} :
    policy.hasSameTargetWriteOverride entry = true ↔ ∃ candidate ∈ policy.entries, candidate.access = .write ∧
      entry.access < .write ∧ fileSystemPathsShareTarget candidate.path entry.path = true := by
  simp only [hasSameTargetWriteOverride, List.any_eq_true, Bool.and_eq_true, decide_eq_true_eq, canWrite, beq_iff_eq]
  constructor
  · rintro ⟨candidate, hmem, ⟨hwrite, hlt⟩, hshare⟩
    exact ⟨candidate, hmem, hwrite, hwrite ▸ hlt, hshare⟩
  · rintro ⟨candidate, hmem, hwrite, hlt, hshare⟩
    exact ⟨candidate, hmem, ⟨hwrite, hwrite ▸ hlt⟩, hshare⟩

theorem eq_read_of_lt_write {mode : FileSystemAccessMode} (h : mode < .write) : mode = .read := by
  revert h
  cases mode <;> decide

theorem specialPathsShareTarget_eq {left right} (h : specialPathsShareTarget left right = true) :
    left = right := by
  cases left <;> cases right <;> simp_all [specialPathsShareTarget]

/-- Entry paths that share a target resolve to the same path, but for a `/tmp` that is no directory. -/
theorem resolve_of_shareTarget {left right path}
    (hshare : fileSystemPathsShareTarget left right = true) (hright : resolveEntryPath host cwd right = some path) :
    resolveEntryPath host cwd left = some path ∨ path = slashTmp ∧ host.isDir slashTmp = false := by
  cases right with
  | globPattern pattern => cases hright
  | path q =>
    cases hright
    cases left with
    | globPattern pattern => cases hshare
    | path p => exact .inl (congrArg some (by simpa [fileSystemPathsShareTarget] using hshare))
    | special value =>
      cases value <;> simp only [fileSystemPathsShareTarget, specialPathMatchesAbsolutePath, beq_iff_eq,
        Bool.false_eq_true] at hshare
      · have hroot : path = [] := by simpa [AbsolutePath.parent] using hshare
        exact .inl (by rw [hroot]; rfl)
      · subst hshare
        cases hdir : host.isDir slashTmp with
        | true => exact .inl (by simp [resolveEntryPath, resolveFileSystemPath, resolveFileSystemSpecialPath, hdir])
        | false => exact .inr ⟨rfl, rfl⟩
  | special value =>
    cases left with
    | globPattern pattern => cases hshare
    | path p =>
      cases value <;> simp only [fileSystemPathsShareTarget, specialPathMatchesAbsolutePath, beq_iff_eq,
        Bool.false_eq_true] at hshare
      · have hroot : p = [] := by simpa [AbsolutePath.parent] using hshare
        cases hright
        exact .inl (by rw [hroot]; rfl)
      · simp only [resolveEntryPath, resolveFileSystemPath, resolveFileSystemSpecialPath] at hright
        split at hright
        · exact .inl (hshare ▸ hright)
        · cases hright
    | special value' => exact .inl (specialPathsShareTarget_eq hshare ▸ hright)

/-- Under full-disk write access, every entry writes, or reads where an entry on its path writes, or
reads a `/tmp` that is no directory. -/
theorem resolved_of_fullWrite (hkind : policy.kind = .restricted) (hfull : policy.hasFullDiskWriteAccess = true)
    {r : ResolvedFileSystemEntry} (hr : r ∈ policy.resolvedEntriesWithCwd host cwd) :
    r.mode = .write ∨ r.mode = .read ∧ (⟨r.path, .write⟩ ∈ policy.resolvedEntriesWithCwd host cwd ∨
      r.path = slashTmp ∧ host.isDir slashTmp = false) := by
  obtain ⟨entry, hmem, hpath, haccess⟩ := mem_resolvedEntries.1 hr
  simp only [hasFullDiskWriteAccess, hkind, Bool.and_eq_true, Bool.not_eq_true', hasWriteNarrowingEntries,
    beq_self_eq_true, Bool.true_and] at hfull
  obtain ⟨hroot, hnarrow⟩ := hfull
  have hentry : policy.narrowsWrite entry = false := by simpa using List.any_eq_false.1 hnarrow entry hmem
  rw [← haccess]
  by_cases hwrite : entry.access = .write
  · exact .inl hwrite
  refine .inr ?_
  have hoverride : policy.hasSameTargetWriteOverride entry = true →
      entry.access = .read ∧ (⟨r.path, .write⟩ ∈ policy.resolvedEntriesWithCwd host cwd ∨
        r.path = slashTmp ∧ host.isDir slashTmp = false) := by
    intro h
    obtain ⟨candidate, hcand, hcandWrite, hlt, hshare⟩ := hasSameTargetWriteOverride_iff.1 h
    refine ⟨eq_read_of_lt_write hlt, (resolve_of_shareTarget hshare hpath).imp_left fun hresolve => ?_⟩
    exact mem_resolvedEntries_of hcand hresolve hcandWrite
  simp only [narrowsWrite, canWrite, beq_iff_eq, hwrite, if_false] at hentry
  split at hentry
  next => exact hoverride (by simpa using hentry)
  next => cases hentry
  next hroot' =>
    -- the root entry that gives full-disk write access
    obtain ⟨mode, hmode, hmemRoot⟩ := @exists_root_entry policy host cwd _ hroot
    obtain rfl : mode = .write := by simpa [canWrite] using hmode
    have hnil : r.path = [] := by
      rw [hroot'] at hpath
      exact (Option.some.inj hpath).symm
    refine ⟨?_, .inl (hnil ▸ hmemRoot)⟩
    cases hmode' : entry.access with
    | read => rfl
    | write => exact absurd hmode' hwrite
    | deny => simp [hmode'] at hentry
  next hminimal =>
    rw [hminimal] at hpath
    cases hpath
  next hunknown =>
    rw [hunknown] at hpath
    cases hpath
  next => exact hoverride (by simpa using hentry)

/-- `/tmp` is no directory, and the path is under it: a policy with full-disk write access has a
read entry on `/tmp`, no write entry that resolves to it, and none below it on the way to the path. -/
def TmpKeptReadOnly (policy : FileSystemSandboxPolicy) (host : Host) (cwd path : AbsolutePath) : Prop :=
  policy.kind = .restricted ∧ policy.hasFullDiskWriteAccess = true ∧ host.isDir slashTmp = false ∧
    ⟨slashTmp, .read⟩ ∈ policy.resolvedEntriesWithCwd host cwd ∧
    ⟨slashTmp, .write⟩ ∉ policy.resolvedEntriesWithCwd host cwd ∧
    slashTmp <+: path ∧ ∀ r ∈ policy.resolvedEntriesWithCwd host cwd, r.path <+: path → r.path <+: slashTmp

/-- Under full-disk write access every path is readable, and writable unless `/tmp` is kept read-only. -/
theorem access_of_fullWrite (hfull : policy.hasFullDiskWriteAccess = true) (path : AbsolutePath) :
    policy.canReadPathWithCwd host cwd path = true ∧
      (policy.canWritePathWithCwd host cwd path = true ↔ ¬ policy.TmpKeptReadOnly host cwd path) := by
  rw [canRead_iff, canWrite_iff, hfull]
  cases hkind : policy.kind with
  | unrestricted => simp [resolveAccessWithCwd, TmpKeptReadOnly, hkind]
  | externalSandbox => simp [resolveAccessWithCwd, TmpKeptReadOnly, hkind]
  | restricted =>
    have hroot : policy.hasRootAccess canWrite = true := by
      simp only [hasFullDiskWriteAccess, hkind, Bool.and_eq_true] at hfull
      exact hfull.1
    obtain ⟨mode, -, hnil⟩ := @exists_root_entry policy host cwd _ hroot
    obtain ⟨r, hr, -⟩ := exists_mostSpecific hnil (@List.nil_prefix _ path)
    obtain ⟨hmem, hcov, hall⟩ := mostSpecific_eq_some.1 hr
    rw [resolveAccess_of_mostSpecific hkind hr]
    rcases resolved_of_fullWrite hkind hfull hmem with hwrite | ⟨hread, hpath⟩
    · refine ⟨by simp [hwrite], ?_⟩
      simp only [hwrite, true_and, reduceCtorEq, false_implies, true_iff]
      rintro ⟨-, -, -, htmpRead, htmpWrite, htmp, habove⟩
      have hrtmp : r.path = slashTmp :=
        (habove r hmem hcov).eq_of_length_le (covers_mostSpecific hr htmpRead htmp).length_le
      exact htmpWrite (by rwa [← hrtmp, ← hwrite])
    · have hnot : (⟨r.path, .write⟩ : ResolvedFileSystemEntry) ∉ policy.resolvedEntriesWithCwd host cwd := by
        intro hwrite
        have hle := precedence_le.1 (hall _ hwrite hcov)
        simp only [hread, lt_irrefl, true_and, false_or] at hle
        exact absurd hle (by decide)
      obtain ⟨htmp, hdir⟩ := hpath.resolve_left hnot
      refine ⟨by simp [hread], ?_⟩
      simp only [hread, reduceCtorEq, false_and, false_iff, not_not]
      refine ⟨hkind, hfull, hdir, ?_, htmp ▸ hnot, htmp ▸ hcov, fun s hs hsp => htmp ▸ covers_mostSpecific hr hs hsp⟩
      rwa [← htmp, ← hread]

/-! ## Without full-disk write access -/

/-- Nothing that is not writable is carved out of `w` on the way to `path`. -/
structure OpenBelow (w : WritableRoot) (path : AbsolutePath) : Prop where
  covers : w.root <+: path
  names : ∀ name, w.root ++ [name] <+: path → name ∉ w.protectedMetadataNames
  subpaths : ∀ q ∈ w.readOnlySubpaths, q <+: path → ∃ name ∈ protectedMetadataPathNames, q = w.root ++ [name]

theorem canWrite_iff_root (hfull : policy.hasFullDiskWriteAccess = false)
    (hgit : ∀ w ∈ policy.getWritableRootsWithCwd host cwd, gitdirOfRoot host w.root = []) {path} :
    policy.canWritePathWithCwd host cwd path = true ↔ ∃ w ∈ policy.getWritableRootsWithCwd host cwd, OpenBelow w path ∧
      ∀ w' ∈ policy.getWritableRootsWithCwd host cwd, w'.root <+: path → w'.root <+: w.root := by
  have hkind := restricted_of_not_fullWrite hfull
  constructor
  · intro hwrite
    have haccess := (canWrite_iff.1 hwrite).1
    obtain ⟨⟨f, mode⟩, hr, hmode⟩ := exists_mostSpecificEntry hkind (by rw [haccess]; simp)
    obtain rfl : mode = .write := hmode.trans haccess
    have hroot := writableRoot_mem hfull hr
    refine ⟨_, hroot, ⟨covers_of_mostSpecific hr, fun name hname hmem => ?_, fun q hq hqp => ?_⟩, fun w' hw' hcov => ?_⟩
    · obtain ⟨hmeta, hnot⟩ := mem_protectedMetadataNames.1 hmem
      have hchild := (canWrite_child hkind hr hname hfull).1 hwrite hmeta
      exact absurd hchild (by simp [show policy.canWritePathWithCwd host cwd (f ++ [name]) = false from hnot])
    · rcases mem_readOnlySubpaths.1 hq with ⟨hdefault, -⟩ | ⟨⟨r, hmem, rfl, -⟩, -, hne, hcov⟩
      · exact (mem_defaultReadOnlySubpaths hdefault).resolve_right (by rw [show gitdirOfRoot host f = [] from hgit _ hroot]; simp)
      · have habove := covers_mostSpecific hr hmem hqp
        exact absurd (habove.eq_of_length_le hcov.length_le) hne
    · exact covers_mostSpecific hr (mem_of_mostSpecific ((mem_writableRoots hfull).1 hw').2) hcov
  · rintro ⟨w, hw, ⟨hcov, hnames, hsubpaths⟩, hdeepest⟩
    obtain ⟨hw', hown⟩ := (mem_writableRoots hfull).1 hw
    obtain ⟨⟨f, mode⟩, hr, -⟩ := exists_mostSpecific (mem_of_mostSpecific hown) hcov
    have hwf : w.root <+: f := covers_mostSpecific hr (mem_of_mostSpecific hown) hcov
    have hfp : f <+: path := covers_of_mostSpecific hr
    by_cases hmode : mode = .write
    · subst hmode
      have hfw : f = w.root := (hdeepest _ (writableRoot_mem hfull hr) hfp).eq_of_length_le hwf.length_le
      subst hfw
      by_cases hpath : w.root = path
      · exact hpath ▸ canWrite_own hkind hr
      · obtain ⟨name, hname⟩ := exists_snoc_prefix hcov hpath
        refine (canWrite_child hkind hr hname hfull).2 fun hmeta => ?_
        have hnot := hnames name hname
        rw [hw', mem_protectedMetadataNames] at hnot
        simpa [hmeta] using hnot
    · -- a read or deny entry below the root is carved out of it
      have hnot : policy.canWritePathWithCwd host cwd f = false := by
        rw [← Bool.not_eq_true, canWrite_iff, resolveAccess_of_mostSpecific hkind (mostSpecific_own hr)]
        simp [hmode]
      have hne : f ≠ w.root := by
        rintro rfl
        exact absurd (canWrite_own hkind hown) (by simp [hnot])
      have hmem : f ∈ w.readOnlySubpaths := by
        rw [hw']
        exact mem_readOnlySubpaths.2 (.inr ⟨⟨_, mem_of_mostSpecific hr, rfl, hmode⟩, hnot, hne, hwf⟩)
      obtain ⟨name, hmeta, rfl⟩ := hsubpaths f hmem hfp
      refine absurd ?_ (hnames name hfp)
      rw [hw']
      exact mem_protectedMetadataNames.2 ⟨hmeta, hnot⟩

/-! ## Equal signatures -/

/-- The same root, with the same subpaths and names in some order. -/
structure SameRoot (w w' : WritableRoot) : Prop where
  root : w'.root = w.root
  subpaths : ∀ q, q ∈ w'.readOnlySubpaths ↔ q ∈ w.readOnlySubpaths
  names : ∀ name, name ∈ w'.protectedMetadataNames ↔ name ∈ w.protectedMetadataNames

theorem exists_sameRoot {roots roots'} (h : sortedWritableRoots roots = sortedWritableRoots roots')
    {w} (hw : w ∈ roots) : ∃ w' ∈ roots', SameRoot w w' := by
  have hsorted : ∀ {roots : List WritableRoot} {v : WritableRoot}, v ∈ sortedWritableRoots roots ↔ ∃ w ∈ roots,
      { w with
        readOnlySubpaths := sortedAbsolutePaths w.readOnlySubpaths
        protectedMetadataNames := (w.protectedMetadataNames.insertionSort (· ≤ ·)).destutter (· ≠ ·) } = v := by
    intro roots v
    rw [sortedWritableRoots, List.mem_insertionSort, List.mem_map]
  obtain ⟨w', hw', heq⟩ := hsorted.1 (h ▸ hsorted.2 ⟨w, hw, rfl⟩)
  rw [WritableRoot.mk.injEq] at heq
  refine ⟨w', hw', heq.1, fun q => ?_, fun name => ?_⟩
  · rw [← mem_sortedAbsolutePaths, heq.2.1, mem_sortedAbsolutePaths]
  · have hnames : ∀ {names : List Text}, name ∈ (names.insertionSort (· ≤ ·)).destutter (· ≠ ·) ↔ name ∈ names := by
      intro names
      rw [mem_destutter_ne, List.mem_insertionSort]
    rw [← hnames, heq.2.2, hnames]

theorem canWrite_of_sorted (hfull : policy.hasFullDiskWriteAccess = false) (hfull' : other.hasFullDiskWriteAccess = false)
    (hgit : ∀ w ∈ policy.getWritableRootsWithCwd host cwd, gitdirOfRoot host w.root = [])
    (hgit' : ∀ w ∈ other.getWritableRootsWithCwd host cwd, gitdirOfRoot host w.root = [])
    (h : sortedWritableRoots (policy.getWritableRootsWithCwd host cwd) =
      sortedWritableRoots (other.getWritableRootsWithCwd host cwd)) {path}
    (hwrite : policy.canWritePathWithCwd host cwd path = true) : other.canWritePathWithCwd host cwd path = true := by
  obtain ⟨w, hw, ⟨hcov, hnames, hsubpaths⟩, hdeepest⟩ := (canWrite_iff_root hfull hgit).1 hwrite
  obtain ⟨w', hw', hsame⟩ := exists_sameRoot h hw
  refine (canWrite_iff_root hfull' hgit').2 ⟨w', hw', ⟨hsame.root ▸ hcov, fun name hname => ?_, fun q hq hqp => ?_⟩,
    fun v' hv' hv'p => ?_⟩
  · rw [hsame.names]
    exact hnames name (hsame.root ▸ hname)
  · rw [hsame.root]
    exact hsubpaths q ((hsame.subpaths q).1 hq) hqp
  · obtain ⟨v, hv, hsame'⟩ := exists_sameRoot h.symm hv'
    rw [hsame.root, ← hsame'.root]
    exact hdeepest v hv (hsame'.root ▸ hv'p)

/-- The entries that decide their own path, one that denies the filesystem root apart, are told by the roots. -/
theorem own_of_sorted (hfull : policy.hasFullDiskWriteAccess = false) (hfull' : other.hasFullDiskWriteAccess = false)
    (hread : policy.hasFullDiskReadAccess = false) (hread' : other.hasFullDiskReadAccess = false)
    (hR : sortedAbsolutePaths (policy.getReadableRootsWithCwd host cwd) =
      sortedAbsolutePaths (other.getReadableRootsWithCwd host cwd))
    (hW : sortedWritableRoots (policy.getWritableRootsWithCwd host cwd) =
      sortedWritableRoots (other.getWritableRootsWithCwd host cwd))
    (hU : sortedAbsolutePaths (policy.getUnreadableRootsWithCwd host cwd) =
      sortedAbsolutePaths (other.getUnreadableRootsWithCwd host cwd))
    {r} (hne : r ≠ ⟨[], .deny⟩) (hr : policy.mostSpecificEntry host cwd r.path = some r) :
    other.mostSpecificEntry host cwd r.path = some r := by
  obtain ⟨path, mode⟩ := r
  cases mode with
  | read =>
    have hmem : path ∈ policy.getReadableRootsWithCwd host cwd := (mem_readableRoots hread).2 ⟨.read, by simp, hr⟩
    rw [← mem_sortedAbsolutePaths, hR, mem_sortedAbsolutePaths] at hmem
    obtain ⟨mode, hmode, hother⟩ := (mem_readableRoots hread').1 hmem
    cases mode with
    | read => exact hother
    | write =>
      obtain ⟨w, hw, hsame⟩ := exists_sameRoot hW.symm (writableRoot_mem hfull' hother)
      have hown := ((mem_writableRoots hfull).1 hw).2
      rw [hsame.root] at hown
      simp only [writableRoot] at hown
      rw [hr] at hown
      cases hown
    | deny => exact absurd rfl hmode
  | write =>
    obtain ⟨w, hw, hsame⟩ := exists_sameRoot hW (writableRoot_mem hfull hr)
    have hown := ((mem_writableRoots hfull').1 hw).2
    rw [hsame.root] at hown
    exact hown
  | deny =>
    have hmem : path ∈ policy.getUnreadableRootsWithCwd host cwd :=
      (mem_unreadableRoots (restricted_of_not_fullWrite hfull)).2 ⟨fun hnil => hne (by rw [hnil]), hr⟩
    rw [← mem_sortedAbsolutePaths, hU, mem_sortedAbsolutePaths] at hmem
    exact ((mem_unreadableRoots (restricted_of_not_fullWrite hfull')).1 hmem).2

/-- **What equal signatures say.** Two equivalent policies, without gitdir pointers under their
roots, give the same access to every path just when they keep the same paths under `/tmp` read-only. -/
theorem sameAccess_iff (policy other : FileSystemSandboxPolicy) (host : Host) (cwd : AbsolutePath)
    (hequiv : policy.isSemanticallyEquivalentTo other host cwd = true)
    (hgit : ∀ w ∈ policy.getWritableRootsWithCwd host cwd, gitdirOfRoot host w.root = [])
    (hgit' : ∀ w ∈ other.getWritableRootsWithCwd host cwd, gitdirOfRoot host w.root = []) :
    (∀ path, policy.canReadPathWithCwd host cwd path = other.canReadPathWithCwd host cwd path ∧
      policy.canWritePathWithCwd host cwd path = other.canWritePathWithCwd host cwd path) ↔
    ∀ path, policy.TmpKeptReadOnly host cwd path ↔ other.TmpKeptReadOnly host cwd path := by
  rw [isSemanticallyEquivalentTo, beq_iff_eq, semanticSignature, semanticSignature,
    FileSystemSemanticSignature.mk.injEq] at hequiv
  obtain ⟨hreadEq, hwriteEq, -, hR, hW, hU, -⟩ := hequiv
  cases hfull : policy.hasFullDiskWriteAccess with
  | true =>
    have hfull' : other.hasFullDiskWriteAccess = true := hwriteEq ▸ hfull
    refine forall_congr' fun path => ?_
    obtain ⟨hread, hwrite⟩ := @access_of_fullWrite policy host cwd hfull path
    obtain ⟨hread', hwrite'⟩ := @access_of_fullWrite other host cwd hfull' path
    rw [hread, hread', and_iff_right (Eq.refl true), Bool.eq_iff_iff, hwrite, hwrite', not_iff_not]
  | false =>
    have hfull' : other.hasFullDiskWriteAccess = false := hwriteEq ▸ hfull
    refine iff_of_true (fun path => ⟨?_, ?_⟩) fun path => by simp [TmpKeptReadOnly, hfull, hfull']
    · cases hread : policy.hasFullDiskReadAccess with
      | true => rw [canRead_of_fullRead hread, canRead_of_fullRead (hreadEq ▸ hread)]
      | false =>
        have hread' : other.hasFullDiskReadAccess = false := hreadEq ▸ hread
        rw [Bool.eq_iff_iff, canRead_iff, canRead_iff, resolveAccess_restricted (restricted_of_not_fullRead hread),
          resolveAccess_restricted (restricted_of_not_fullRead hread'), modeAt_congr fun r hne =>
            ⟨own_of_sorted hfull hfull' hread hread' hR hW hU hne,
              own_of_sorted hfull' hfull hread' hread hR.symm hW.symm hU.symm hne⟩]
    · rw [Bool.eq_iff_iff]
      exact ⟨canWrite_of_sorted hfull hfull' hgit hgit' hW, canWrite_of_sorted hfull' hfull hgit' hgit hW.symm⟩

/-- Entries in another order, with an entry on the same path that a write entry overrides. -/
theorem sameAccess_iff_reordered :
    let policy : FileSystemSandboxPolicy := .restricted
      [.new (.special .root) .read, .new (.special (.projectRoots none)) .write, .new (.path [['k']]) .deny]
    let other : FileSystemSandboxPolicy := .restricted
      [.new (.path [['k']]) .deny, .new (.path [['w']]) .read, .new (.path [['w']]) .write, .new (.path []) .read]
    (∀ path, policy.canReadPathWithCwd .empty [['w']] path = other.canReadPathWithCwd .empty [['w']] path ∧
      policy.canWritePathWithCwd .empty [['w']] path = other.canWritePathWithCwd .empty [['w']] path) ↔
    ∀ path, policy.TmpKeptReadOnly .empty [['w']] path ↔ other.TmpKeptReadOnly .empty [['w']] path :=
  sameAccess_iff _ _ _ _ (by decide) (by decide) (by decide)

/-- Without a directory `/tmp`, a read entry on it makes no difference to the signature, and keeps it read-only. -/
theorem sameAccess_iff_missingTmp :
    let policy : FileSystemSandboxPolicy := .restricted [.new (.special .root) .write]
    let other : FileSystemSandboxPolicy := .restricted
      [.new (.special .root) .write, .new (.path slashTmp) .read, .new (.special .slashTmp) .write]
    policy.isSemanticallyEquivalentTo other .empty [] = true ∧
      (∀ w ∈ policy.getWritableRootsWithCwd .empty [] ++ other.getWritableRootsWithCwd .empty [],
        gitdirOfRoot .empty w.root = []) ∧
      policy.canWritePathWithCwd .empty [] slashTmp = true ∧ other.canWritePathWithCwd .empty [] slashTmp = false := by
  decide

end FileSystemSandboxPolicy

end Codex.Permissions
