/-
What the derived forms of a sandbox policy say of the access it resolves.

The entries that decide their own path are the roots: an unreadable root is the path of a
deny entry that does (`mem_unreadableRoots`), a readable root of one that does not deny, a
writable root of a write entry. Below a write entry metadata is kept back by the name
directly under it alone.
-/
import Codex.Permissions

namespace Codex.Permissions

open Specificity FileSystemAccessMode

theorem mem_foldl_pushUnique {α : Type} [DecidableEq α] {x : α} : ∀ {new xs : List α},
    x ∈ new.foldl pushUnique xs ↔ x ∈ xs ∨ x ∈ new
  | [], xs => by simp
  | first :: new, xs => by
    rw [List.foldl_cons, mem_foldl_pushUnique, pushUnique]
    split
    next hmem =>
      have : x = first → x ∈ xs := fun h => h ▸ List.contains_iff_mem.1 hmem
      rw [List.mem_cons]
      tauto
    next => simp [or_assoc]

variable {p : AbsolutePath} {r : ResolvedFileSystemEntry} {path : AbsolutePath} {name : Text}
  {m f root : AbsolutePath} {behavior : InvalidDenyReadGlobBehavior}

theorem mem_sortedAbsolutePaths {paths} : p ∈ sortedAbsolutePaths paths ↔ p ∈ paths :=
  List.mem_insertionSort _

theorem mem_destutter_ne {α : Type} [DecidableEq α] {xs : List α} {x : α} : x ∈ xs.destutter (· ≠ ·) ↔ x ∈ xs := by
  refine ⟨fun h => (List.destutter_sublist _ _).subset h, fun h => ?_⟩
  cases xs with
  | nil => cases h
  | cons first xs =>
    rw [List.destutter_cons']
    induction xs generalizing first with
    | nil => simpa using h
    | cons second xs ih =>
      rw [List.destutter'_cons]
      split
      next hne =>
        rcases List.mem_cons.1 h with rfl | h
        exacts [List.mem_cons_self, List.mem_cons_of_mem _ (ih second h)]
      next heq =>
        obtain rfl : first = second := not_not.1 heq
        exact ih first (by simpa using h)

variable {policy : FileSystemSandboxPolicy} {host : Host} {cwd : AbsolutePath}

/-! ## Resolved entries -/

theorem mem_resolvedEntries : r ∈ policy.resolvedEntriesWithCwd host cwd ↔
      ∃ entry ∈ policy.entries, resolveEntryPath host cwd entry.path = some r.path ∧ entry.access = r.mode := by
  simp only [FileSystemSandboxPolicy.resolvedEntriesWithCwd, List.mem_filterMap, Option.map_eq_some_iff]
  constructor
  · rintro ⟨entry, hentry, path, hpath, rfl⟩
    exact ⟨entry, hentry, hpath, rfl⟩
  · rintro ⟨entry, hentry, hpath, haccess⟩
    exact ⟨entry, hentry, r.path, hpath, by rw [haccess]⟩

theorem mem_resolvedEntries_of {entry mode}
    (hmem : entry ∈ policy.entries) (hpath : resolveEntryPath host cwd entry.path = some path) (haccess : entry.access = mode) :
    ⟨path, mode⟩ ∈ policy.resolvedEntriesWithCwd host cwd := mem_resolvedEntries.2 ⟨entry, hmem, hpath, haccess⟩

def NoGlobs (entries : List FileSystemSandboxEntry) : Prop := ∀ entry ∈ entries, ∀ pattern, entry.path ≠ .globPattern pattern

namespace FileSystemSandboxPolicy

theorem resolveAccess_restricted (hkind : policy.kind = .restricted) (path : AbsolutePath) :
    policy.resolveAccessWithCwd host cwd path = modeAt .deny (policy.resolvedEntriesWithCwd host cwd) path := by
  rw [resolveAccessWithCwd, hkind]
  rfl

theorem resolveAccess_of_mostSpecific (hkind : policy.kind = .restricted)
    (h : policy.mostSpecificEntry host cwd path = some r) : policy.resolveAccessWithCwd host cwd path = r.mode := by
  rw [resolveAccess_restricted hkind, modeAt_of_mostSpecific h]

/-- Where the access is more than denied, an entry gives it. -/
theorem exists_mostSpecificEntry (hkind : policy.kind = .restricted)
    (h : policy.resolveAccessWithCwd host cwd path ≠ .deny) :
    ∃ r, policy.mostSpecificEntry host cwd path = some r ∧ r.mode = policy.resolveAccessWithCwd host cwd path := by
  cases hr : policy.mostSpecificEntry host cwd path with
  | none =>
    refine absurd ?_ h
    rw [mostSpecificEntry] at hr
    rw [resolveAccess_restricted hkind, modeAt, hr]
    rfl
  | some r => exact ⟨r, rfl, (resolveAccess_of_mostSpecific hkind hr).symm⟩

theorem canRead_iff :
    policy.canReadPathWithCwd host cwd path = true ↔ policy.resolveAccessWithCwd host cwd path ≠ .deny := by
  simp [canReadPathWithCwd, canRead]

theorem canWrite_iff :
    policy.canWritePathWithCwd host cwd path = true ↔ policy.resolveAccessWithCwd host cwd path = .write ∧
      (policy.hasFullDiskWriteAccess = false → policy.isMetadataWriteDenied host cwd path = false) := by
  rw [canWritePathWithCwd]
  by_cases haccess : policy.resolveAccessWithCwd host cwd path = .write
  · cases policy.hasFullDiskWriteAccess <;> simp [canWrite, haccess]
  · simp [canWrite, haccess]

theorem restricted_of_not_fullWrite (h : policy.hasFullDiskWriteAccess = false) : policy.kind = .restricted := by
  rw [hasFullDiskWriteAccess] at h
  cases hkind : policy.kind <;> simp_all

theorem restricted_of_not_fullRead (h : policy.hasFullDiskReadAccess = false) : policy.kind = .restricted := by
  rw [hasFullDiskReadAccess] at h
  cases hkind : policy.kind <;> simp_all

end FileSystemSandboxPolicy

/-! ## Metadata -/

theorem metadataPathName_eq_some {found : Text} :
    metadataPathName name = some found ↔ found = name ∧ name ∈ protectedMetadataPathNames := by
  rw [metadataPathName]
  constructor
  · intro h
    obtain rfl : name = found := by simpa using List.find?_some h
    exact ⟨rfl, List.mem_of_find?_eq_some h⟩
  · rintro ⟨rfl, hmem⟩
    cases h : protectedMetadataPathNames.find? (decide <| found = ·) with
    | none => exact absurd (List.find?_eq_none.1 h found hmem) (by simp)
    | some name =>
      obtain rfl : found = name := by simpa using List.find?_some h
      rfl

theorem metadataChild_eq_some {target entry} : metadataChild target entry = some (m, name) ↔
      name ∈ protectedMetadataPathNames ∧ m = entry.path ++ [name] ∧ entry.path ++ [name] <+: target := by
  simp only [metadataChild, AbsolutePath.stripBase, List.isPrefixOf_iff_prefix, Option.bind_eq_bind, Option.pure_def,
    Option.bind_eq_some_iff, Option.some.injEq, Prod.mk.injEq]
  constructor
  · rintro ⟨relative, hrel, head, hhead, found, hfound, rfl, rfl⟩
    obtain ⟨rfl, hmem⟩ := metadataPathName_eq_some.1 hfound
    split at hrel
    next hcov =>
      obtain ⟨rest, rfl⟩ := hcov
      rw [List.drop_left, Option.some.injEq] at hrel
      subst hrel
      obtain ⟨tail, rfl⟩ := List.head?_eq_some_iff.1 hhead
      exact ⟨hmem, rfl, tail, by simp⟩
    next => simp at hrel
  · rintro ⟨hmem, rfl, tail, rfl⟩
    refine ⟨name :: tail, ?_, name, rfl, name, metadataPathName_eq_some.2 ⟨rfl, hmem⟩, rfl, rfl⟩
    rw [List.append_assoc, if_pos (List.prefix_append _ _), List.drop_left]
    rfl

theorem hasExplicitWriteEntry_iff {target} :
    hasExplicitWriteEntryForMetadataPath policy host cwd m target = true ↔
      ∃ entry ∈ policy.resolvedEntriesWithCwd host cwd, entry.mode = .write ∧ entry.path <+: target ∧ m <+: entry.path := by
  simp [hasExplicitWriteEntryForMetadataPath, canWrite, and_assoc]

theorem isMetadataWriteDenied_iff (hkind : policy.kind = .restricted) :
    policy.isMetadataWriteDenied host cwd path = true ↔ ∃ m name,
      metadataChildOfWritableRoot policy host cwd path = some (m, name) ∧
        hasExplicitWriteEntryForMetadataPath policy host cwd m path = false := by
  rw [FileSystemSandboxPolicy.isMetadataWriteDenied, hkind]
  cases metadataChildOfWritableRoot policy host cwd path with
  | none => simp
  | some child =>
    obtain ⟨m, name⟩ := child
    simp

theorem exists_of_metadataChildOfWritableRoot
    (h : metadataChildOfWritableRoot policy host cwd path = some (m, name)) :
    ∃ entry ∈ policy.resolvedEntriesWithCwd host cwd, entry.mode = .write ∧ name ∈ protectedMetadataPathNames ∧
      m = entry.path ++ [name] ∧ entry.path ++ [name] <+: path := by
  obtain ⟨entry, hentry, hchild⟩ := List.exists_of_findSome?_eq_some h
  rw [List.mem_filter] at hentry
  exact ⟨entry, hentry.1, by simpa [canWrite] using hentry.2, metadataChild_eq_some.1 hchild⟩

/-- A path above a longer one, both on the way to a third, is above the longer one. -/
theorem snoc_prefix_of_ne {e} (hep : e ++ [name] <+: p) (hfp : f <+: p) (hef : e <+: f)
    (hne : e ≠ f) : e ++ [name] <+: f := by
  have hlt : e.length < f.length := lt_of_le_of_ne hef.length_le fun hlen => hne (hef.eq_of_length hlen)
  exact List.prefix_of_prefix_length_le hep hfp (by simp only [List.length_append, List.length_singleton]; omega)

theorem exists_snoc_prefix (h : f <+: p) (hne : f ≠ p) : ∃ name, f ++ [name] <+: p := by
  obtain ⟨rest, rfl⟩ := h
  cases rest with
  | nil => exact absurd (List.append_nil f).symm hne
  | cons name rest => exact ⟨name, rest, by simp⟩

/-- A write entry's own path is not kept back as metadata. -/
theorem isMetadataWriteDenied_own (hkind : policy.kind = .restricted)
    (h : ⟨f, .write⟩ ∈ policy.resolvedEntriesWithCwd host cwd) : policy.isMetadataWriteDenied host cwd f = false := by
  rw [← Bool.not_eq_true]
  intro hdenied
  obtain ⟨m, name, hchild, hnot⟩ := (isMetadataWriteDenied_iff hkind).1 hdenied
  obtain ⟨entry, -, -, -, rfl, hcov⟩ := exists_of_metadataChildOfWritableRoot hchild
  have hexplicit := hasExplicitWriteEntry_iff.2 ⟨_, h, rfl, List.prefix_refl _, hcov⟩
  rw [hnot] at hexplicit
  cases hexplicit

/-- Below the write entry that decides a path, the name directly under the entry tells whether the
path is kept back as metadata. -/
theorem isMetadataWriteDenied_child (hkind : policy.kind = .restricted)
    (h : policy.mostSpecificEntry host cwd p = some ⟨f, .write⟩) (hp : f ++ [name] <+: p) :
    policy.isMetadataWriteDenied host cwd p =
      (decide (name ∈ protectedMetadataPathNames) && policy.isMetadataWriteDenied host cwd (f ++ [name])) := by
  have hfp : f <+: p := (List.prefix_append f [name]).trans hp
  by_cases hname : name ∈ protectedMetadataPathNames
  · -- the same write entries are on the way to both, with the same children
    have hchild : metadataChildOfWritableRoot policy host cwd p =
        metadataChildOfWritableRoot policy host cwd (f ++ [name]) := by
      rw [metadataChildOfWritableRoot, metadataChildOfWritableRoot, ← List.head?_filterMap, ← List.head?_filterMap]
      refine congrArg List.head? (List.filterMap_congr fun entry hentry => ?_)
      rw [List.mem_filter] at hentry
      refine Option.ext fun child => ?_
      rw [metadataChild_eq_some, metadataChild_eq_some]
      refine and_congr_right fun _ => and_congr_right fun _ => ⟨fun hep => ?_, fun hep => hep.trans hp⟩
      have hef := covers_mostSpecific h hentry.1 ((List.prefix_append _ _).trans hep)
      exact List.prefix_of_prefix_length_le hep hp (by simpa using hef.length_le)
    have hexplicit : ∀ m, hasExplicitWriteEntryForMetadataPath policy host cwd m p =
        hasExplicitWriteEntryForMetadataPath policy host cwd m (f ++ [name]) := by
      intro m
      rw [Bool.eq_iff_iff, hasExplicitWriteEntry_iff, hasExplicitWriteEntry_iff]
      constructor
      · rintro ⟨entry, hentry, hmode, hep, hme⟩
        exact ⟨entry, hentry, hmode, (covers_mostSpecific h hentry hep).trans (List.prefix_append _ _), hme⟩
      · rintro ⟨entry, hentry, hmode, hep, hme⟩
        exact ⟨entry, hentry, hmode, hep.trans hp, hme⟩
    rw [FileSystemSandboxPolicy.isMetadataWriteDenied, FileSystemSandboxPolicy.isMetadataWriteDenied, hchild,
      decide_eq_true hname, Bool.true_and]
    simp only [hexplicit]
  · rw [decide_eq_false hname, Bool.false_and, ← Bool.not_eq_true]
    intro hdenied
    obtain ⟨m, found, hchild, hnot⟩ := (isMetadataWriteDenied_iff hkind).1 hdenied
    obtain ⟨entry, hentry, -, hfound, rfl, hep⟩ := exists_of_metadataChildOfWritableRoot hchild
    have hef := covers_mostSpecific h hentry ((List.prefix_append _ _).trans hep)
    by_cases hne : entry.path = f
    · have heq : entry.path ++ [found] = f ++ [name] :=
        (List.prefix_of_prefix_length_le hep hp (by simp [hne])).eq_of_length (by simp [hne])
      rw [hne, List.append_cancel_left_eq, List.cons.injEq] at heq
      exact hname (heq.1 ▸ hfound)
    · have hexplicit := hasExplicitWriteEntry_iff.2
        ⟨_, mem_of_mostSpecific h, rfl, hfp, snoc_prefix_of_ne hep hfp hef hne⟩
      rw [hnot] at hexplicit
      cases hexplicit

namespace FileSystemSandboxPolicy

theorem canWrite_own (hkind : policy.kind = .restricted)
    (h : policy.mostSpecificEntry host cwd p = some ⟨f, .write⟩) : policy.canWritePathWithCwd host cwd f = true :=
  canWrite_iff.2 ⟨resolveAccess_of_mostSpecific hkind (mostSpecific_own h),
    fun _ => isMetadataWriteDenied_own hkind (mem_of_mostSpecific h)⟩

/-- Below the write entry that decides a path, the path is writable unless metadata directly under
the entry is in the way and is not. -/
theorem canWrite_child (hkind : policy.kind = .restricted)
    (h : policy.mostSpecificEntry host cwd p = some ⟨f, .write⟩) (hp : f ++ [name] <+: p)
    (hfull : policy.hasFullDiskWriteAccess = false) :
    policy.canWritePathWithCwd host cwd p = true ↔
      (name ∈ protectedMetadataPathNames → policy.canWritePathWithCwd host cwd (f ++ [name]) = true) := by
  have hbetween : policy.mostSpecificEntry host cwd (f ++ [name]) = some ⟨f, .write⟩ :=
    mostSpecific_between h (List.prefix_append _ _) hp
  have haccess : policy.resolveAccessWithCwd host cwd p = .write := resolveAccess_of_mostSpecific hkind h
  have haccess' : policy.resolveAccessWithCwd host cwd (f ++ [name]) = .write := resolveAccess_of_mostSpecific hkind hbetween
  rw [canWrite_iff, canWrite_iff, haccess, haccess', hfull, isMetadataWriteDenied_child hkind h hp]
  by_cases hname : name ∈ protectedMetadataPathNames <;> simp [hname]

/-! ## Roots -/

theorem mem_unreadableRoots (hkind : policy.kind = .restricted) :
    p ∈ policy.getUnreadableRootsWithCwd host cwd ↔ p ≠ [] ∧ policy.mostSpecificEntry host cwd p = some ⟨p, .deny⟩ := by
  simp only [getUnreadableRootsWithCwd, hkind, bne_self_eq_false, Bool.false_eq_true, if_false, dedupAbsolutePaths,
    List.mem_eraseDups, List.mem_map, List.mem_filter, beq_iff_eq, bne_iff_ne, Bool.not_eq_true', ← Bool.not_eq_true]
  constructor
  · rintro ⟨entry, ⟨⟨⟨hentry, hmode⟩, -⟩, hroot⟩, rfl⟩
    obtain ⟨mode, hown, hle⟩ := exists_mostSpecific_own hentry
    obtain rfl : mode = .deny := le_antisymm (le_deny mode) (hmode ▸ hle)
    exact ⟨hroot, hown⟩
  · rintro ⟨hroot, h⟩
    refine ⟨⟨p, .deny⟩, ⟨⟨⟨mem_of_mostSpecific h, rfl⟩, ?_⟩, hroot⟩, rfl⟩
    rw [canRead_iff, resolveAccess_of_mostSpecific hkind h]
    simp

/-- The readable roots are the paths that an entry of their own decides and does not deny. -/
theorem mem_readableRoots (hfull : policy.hasFullDiskReadAccess = false) :
    p ∈ policy.getReadableRootsWithCwd host cwd ↔
      ∃ mode, mode ≠ .deny ∧ policy.mostSpecificEntry host cwd p = some ⟨p, mode⟩ := by
  have hkind := restricted_of_not_fullRead hfull
  simp only [getReadableRootsWithCwd, hfull, Bool.false_eq_true, if_false, dedupAbsolutePaths, List.mem_eraseDups,
    List.mem_map, List.mem_filter, canRead_iff]
  constructor
  · rintro ⟨entry, ⟨⟨hentry, -⟩, hread⟩, rfl⟩
    obtain ⟨mode, hown, -⟩ := exists_mostSpecific_own hentry
    refine ⟨mode, fun hdeny => hread ?_, hown⟩
    rw [resolveAccess_of_mostSpecific hkind hown, hdeny]
  · rintro ⟨mode, hmode, h⟩
    refine ⟨⟨p, mode⟩, ⟨⟨mem_of_mostSpecific h, by simpa [canRead] using hmode⟩, ?_⟩, rfl⟩
    rwa [resolveAccess_of_mostSpecific hkind h]

theorem mem_writableRoots (hfull : policy.hasFullDiskWriteAccess = false) {w} :
    w ∈ policy.getWritableRootsWithCwd host cwd ↔
      w = policy.writableRoot host cwd w.root ∧ policy.mostSpecificEntry host cwd w.root = some ⟨w.root, .write⟩ := by
  have hkind := restricted_of_not_fullWrite hfull
  simp only [getWritableRootsWithCwd, hfull, Bool.false_eq_true, if_false, dedupAbsolutePaths, List.mem_map,
    List.mem_eraseDups, List.mem_filter]
  constructor
  · rintro ⟨p, ⟨entry, ⟨⟨hentry, hmode⟩, hwrite⟩, rfl⟩, rfl⟩
    obtain ⟨mode, hown, -⟩ := exists_mostSpecific_own hentry
    have haccess := (canWrite_iff.1 hwrite).1
    rw [resolveAccess_of_mostSpecific hkind hown] at haccess
    exact ⟨rfl, by rw [← haccess]; exact hown⟩
  · rintro ⟨hw, h⟩
    exact ⟨w.root, ⟨⟨w.root, .write⟩, ⟨⟨mem_of_mostSpecific h, by simp [canWrite]⟩, canWrite_own hkind h⟩, rfl⟩, hw.symm⟩

theorem writableRoot_mem (hfull : policy.hasFullDiskWriteAccess = false)
    (h : policy.mostSpecificEntry host cwd p = some ⟨f, .write⟩) :
    policy.writableRoot host cwd f ∈ policy.getWritableRootsWithCwd host cwd :=
  (mem_writableRoots hfull).2 ⟨rfl, mostSpecific_own h⟩

theorem mem_protectedMetadataNames : name ∈ (policy.writableRoot host cwd root).protectedMetadataNames ↔
      name ∈ protectedMetadataPathNames ∧ policy.canWritePathWithCwd host cwd (root ++ [name]) = false := by
  simp [writableRoot, protectedMetadataNamesForWritableRoot]

/-- A default read-only subpath is a metadata path directly below the root, or the gitdir its `.git` names. -/
theorem mem_defaultReadOnlySubpaths {q} {protectMissing : Bool}
    (h : q ∈ defaultReadOnlySubpathsForWritableRoot host root protectMissing) :
    (∃ name ∈ protectedMetadataPathNames, q = root ++ [name]) ∨ q ∈ gitdirOfRoot host root := by
  simp only [defaultReadOnlySubpathsForWritableRoot, dedupAbsolutePaths, List.mem_eraseDups, List.mem_append] at h
  rcases h with (h | h) | h
  · split at h
    · rcases List.mem_append.1 h with h | h
      · exact .inr h
      · exact .inl ⟨dotGit, by simp [protectedMetadataPathNames], List.mem_singleton.1 h⟩
    · cases h
  · split at h
    · exact .inl ⟨dotAgents, by simp [protectedMetadataPathNames], List.mem_singleton.1 h⟩
    · cases h
  · split at h
    · exact .inl ⟨dotCodex, by simp [protectedMetadataPathNames], List.mem_singleton.1 h⟩
    · cases h

theorem mem_readOnlySubpaths {q} : q ∈ (policy.writableRoot host cwd root).readOnlySubpaths ↔
      (q ∈ defaultReadOnlySubpathsForWritableRoot host root (cwd == root) ∧
        ∀ r ∈ policy.resolvedEntriesWithCwd host cwd, r.path ≠ q) ∨
      ((∃ r ∈ policy.resolvedEntriesWithCwd host cwd, r.path = q ∧ r.mode ≠ .write) ∧
        policy.canWritePathWithCwd host cwd q = false ∧ q ≠ root ∧ root <+: q) := by
  simp only [writableRoot, readOnlyCarveouts, dedupAbsolutePaths, List.mem_eraseDups, List.mem_append, List.mem_filter,
    hasExplicitResolvedPathEntry, List.mem_map, canWrite, Bool.not_eq_true', List.any_eq_false, beq_iff_eq, Bool.and_eq_true,
    bne_iff_ne, List.isPrefixOf_iff_prefix, beq_eq_false_iff_ne]
  refine or_congr Iff.rfl ⟨?_, ?_⟩
  · rintro ⟨⟨r, ⟨⟨hr, hmode⟩, hwrite⟩, rfl⟩, hne, hcov⟩
    exact ⟨⟨r, hr, rfl, hmode⟩, hwrite, hne, hcov⟩
  · rintro ⟨⟨r, hr, rfl, hmode⟩, hwrite, hne, hcov⟩
    exact ⟨⟨r, ⟨⟨hr, hmode⟩, hwrite⟩, rfl⟩, hne, hcov⟩

theorem getUnreadableGlobs_eq_nil (h : NoGlobs policy.entries) : policy.getUnreadableGlobsWithCwd host cwd = [] := by
  have hnone : policy.entries.filterMap (denyGlobPattern host cwd) = [] := by
    rw [List.filterMap_eq_nil_iff]
    intro entry hmem
    rw [denyGlobPattern]
    split
    next pattern hpath => exact absurd hpath (h entry hmem pattern)
    next => rfl
  rw [getUnreadableGlobsWithCwd, hnone]
  split <;> rfl

end FileSystemSandboxPolicy

/-! ## The read-deny matcher -/

theorem normalizedAndCanonicalCandidates_eq (path : AbsolutePath) : normalizedAndCanonicalCandidates host path = [path] := by
  simp [normalizedAndCanonicalCandidates, pushUnique]

theorem hasDenied_of_mem (hkind : policy.kind = .restricted)
    (h : r ∈ policy.resolvedEntriesWithCwd host cwd) (hdeny : r.mode = .deny) : policy.hasDeniedReadRestrictions = true := by
  obtain ⟨entry, hmem, -, haccess⟩ := mem_resolvedEntries.1 h
  rw [FileSystemSandboxPolicy.hasDeniedReadRestrictions, hkind, beq_self_eq_true, Bool.true_and]
  exact List.any_eq_true.2 ⟨entry, hmem, by simp [haccess, hdeny]⟩

namespace ReadDenyMatcher

variable {globs : GlobMatchers}

theorem isReadDenied_of_root {matcher : ReadDenyMatcher} {d : AbsolutePath} (hd : [d] ∈ matcher.deniedCandidates)
    (hcov : d <+: path) : matcher.isReadDenied host path = true := by
  have hany : (matcher.deniedCandidates.any fun denied => (normalizedAndCanonicalCandidates host path).any fun candidate =>
      denied.any fun denied => candidate == denied || denied.isPrefixOf candidate) = true :=
    List.any_eq_true.2 ⟨[d], hd, by simp [normalizedAndCanonicalCandidates_eq, hcov]⟩
  rw [isReadDenied]
  simp only [hany, if_true, ite_self]

theorem addPattern_deniedCandidates {matcher matcher'} {pattern : Text}
    (h : addPattern globs behavior matcher pattern = .ok matcher') : matcher'.deniedCandidates = matcher.deniedCandidates := by
  unfold addPattern at h
  cases hglob : globs.buildGlobMatcher pattern with
  | ok m =>
    rw [hglob] at h
    cases h
    rfl
  | error err =>
    rw [hglob] at h
    cases behavior with
    | failClosed =>
      cases h
      rfl
    | returnError => cases h

theorem addPatterns_deniedCandidates : ∀ {patterns : List Text} {matcher matcher' : ReadDenyMatcher},
      patterns.foldlM (addPattern globs behavior) matcher = .ok matcher' → matcher'.deniedCandidates = matcher.deniedCandidates
  | [], _, _, h => by cases h; rfl
  | pattern :: patterns, matcher, matcher', h => by
    rw [List.foldlM_cons] at h
    cases hstep : addPattern globs behavior matcher pattern with
    | error err =>
      rw [hstep] at h
      cases h
    | ok m =>
      rw [hstep] at h
      exact (addPatterns_deniedCandidates h).trans (addPattern_deniedCandidates hstep)

theorem addPatterns_failClosed : ∀ (patterns : List Text) (matcher : ReadDenyMatcher),
    ∃ matcher', patterns.foldlM (addPattern globs .failClosed) matcher = .ok matcher'
  | [], matcher => ⟨matcher, rfl⟩
  | pattern :: patterns, matcher => by
    have hstep : ∃ m, addPattern globs .failClosed matcher pattern = .ok m := by
      unfold addPattern
      cases globs.buildGlobMatcher pattern with
      | ok m => exact ⟨_, rfl⟩
      | error err => exact ⟨_, rfl⟩
    obtain ⟨m, hm⟩ := hstep
    rw [List.foldlM_cons, hm]
    exact addPatterns_failClosed patterns m

/-- A matcher built from a policy with deny entries keeps every unreadable root. -/
theorem build_spec {matcher}
    (hdenied : policy.hasDeniedReadRestrictions = true) (h : build globs policy host cwd behavior = .ok matcher) :
    ∃ m, matcher = some m ∧ ∀ d ∈ policy.getUnreadableRootsWithCwd host cwd, [d] ∈ m.deniedCandidates := by
  rw [build, hdenied, Bool.not_true, if_neg Bool.false_ne_true] at h
  cases hfold : (policy.getUnreadableGlobsWithCwd host cwd).foldlM (addPattern globs behavior)
      (ofRoots policy host cwd) with
  | error err =>
    rw [hfold] at h
    cases h
  | ok m =>
    rw [hfold] at h
    cases h
    refine ⟨m, rfl, fun d hd => ?_⟩
    rw [addPatterns_deniedCandidates hfold]
    exact List.mem_map.2 ⟨d, hd, normalizedAndCanonicalCandidates_eq d⟩

theorem exists_new (hdenied : policy.hasDeniedReadRestrictions = true) :
    ∃ matcher, build globs policy host cwd .failClosed = .ok matcher ∧ new globs policy host cwd = matcher := by
  rw [new, build, hdenied, Bool.not_true, if_neg Bool.false_ne_true]
  obtain ⟨m, hm⟩ := addPatterns_failClosed (policy.getUnreadableGlobsWithCwd host cwd)
    (ofRoots policy host cwd)
  rw [hm]
  exact ⟨some m, rfl, rfl⟩

theorem isReadDenied_ofRoots :
    (ofRoots policy host cwd).isReadDenied host path = true ↔ ∃ d ∈ policy.getUnreadableRootsWithCwd host cwd, d <+: path := by
  constructor
  swap
  · rintro ⟨d, hd, hcov⟩
    exact isReadDenied_of_root (List.mem_map.2 ⟨d, hd, normalizedAndCanonicalCandidates_eq d⟩) hcov
  intro h
  simp only [isReadDenied, ofRoots, Bool.false_eq_true, if_false, normalizedAndCanonicalCandidates_eq, List.any_map,
    List.any_nil, Bool.if_false_right, Bool.and_true, decide_eq_true_eq, List.any_eq_true, Function.comp_apply,
    List.any_cons, Bool.or_false, Bool.or_eq_true, beq_iff_eq, List.isPrefixOf_iff_prefix] at h
  obtain ⟨d, hd, hcov⟩ := h
  exact ⟨d, hd, hcov.elim (fun heq => heq ▸ List.prefix_refl _) id⟩

/-- Without glob patterns the matcher denies what is under an unreadable root. -/
theorem new_denied_iff (hkind : policy.kind = .restricted) (hglobs : policy.getUnreadableGlobsWithCwd host cwd = []) :
    ((new globs policy host cwd).any fun m => m.isReadDenied host path) = true ↔
      ∃ d ∈ policy.getUnreadableRootsWithCwd host cwd, d <+: path := by
  cases hdenied : policy.hasDeniedReadRestrictions with
  | true =>
    have hnew : new globs policy host cwd = some (ofRoots policy host cwd) := by
      rw [new, build, hdenied, hglobs]
      rfl
    rw [hnew, Option.any_some, isReadDenied_ofRoots]
  | false =>
    have hnew : new globs policy host cwd = none := by
      rw [new, build, hdenied]
      rfl
    rw [hnew, Option.any_none]
    refine iff_of_false Bool.false_ne_true ?_
    rintro ⟨d, hd, -⟩
    have hown := (FileSystemSandboxPolicy.mem_unreadableRoots hkind).1 hd
    rw [hasDenied_of_mem hkind (mem_of_mostSpecific hown.2) rfl] at hdenied
    cases hdenied

/-- **No deny entry is lost.** Of a restricted policy, a path whose most specific entry denies it,
below the root, is read-denied by the matcher, however it is built. -/
theorem denied_of_mostSpecific (globs : GlobMatchers) (policy : FileSystemSandboxPolicy) (host : Host)
    (cwd path d : AbsolutePath) (hkind : policy.kind = .restricted)
    (hentry : policy.mostSpecificEntry host cwd path = some ⟨d, .deny⟩) (hroot : d ≠ []) :
    (∃ m, new globs policy host cwd = some m ∧ m.isReadDenied host path = true) ∧
      ∀ matcher, tryNew globs policy host cwd = .ok matcher → ∃ m, matcher = some m ∧ m.isReadDenied host path = true := by
  have hdenied := hasDenied_of_mem hkind (mem_of_mostSpecific hentry) rfl
  have hd : d ∈ policy.getUnreadableRootsWithCwd host cwd :=
    (FileSystemSandboxPolicy.mem_unreadableRoots hkind).2 ⟨hroot, mostSpecific_own hentry⟩
  have hcov : d <+: path := covers_of_mostSpecific hentry
  have hall : ∀ behavior matcher, build globs policy host cwd behavior = .ok matcher →
      ∃ m, matcher = some m ∧ m.isReadDenied host path = true := by
    intro behavior matcher hbuild
    obtain ⟨m, rfl, hroots⟩ := build_spec hdenied hbuild
    exact ⟨m, rfl, isReadDenied_of_root (hroots d hd) hcov⟩
  obtain ⟨matcher, hbuild, hnew⟩ := exists_new hdenied
  obtain ⟨m, rfl, hm⟩ := hall .failClosed matcher hbuild
  exact ⟨⟨m, hnew, hm⟩, hall .returnError⟩

/-- A deny entry below a writable root, itself inside a readable one. -/
theorem denied_of_mostSpecific_nested :
    let globs : GlobMatchers := ⟨fun _ => .error []⟩
    let policy : FileSystemSandboxPolicy := .restricted
      [.new (.special .root) .read, .new (.special (.projectRoots none)) .write, .new (.path [['w'], ['k']]) .deny]
    (∃ m, new globs policy .empty [['w']] = some m ∧
      m.isReadDenied .empty [['w'], ['k'], ['x']] = true) ∧
      ∀ matcher, tryNew globs policy .empty [['w']] = .ok matcher →
        ∃ m, matcher = some m ∧ m.isReadDenied .empty [['w'], ['k'], ['x']] = true :=
  denied_of_mostSpecific _ _ _ _ _ [['w'], ['k']] rfl (by decide) (by decide)

/-- A policy that is not restricted has no matcher, whatever its entries. -/
theorem denied_of_mostSpecific_unrestricted :
    let policy : FileSystemSandboxPolicy :=
      { kind := .unrestricted, globScanMaxDepth := none, entries := [.new (.path [['k']]) .deny] }
    policy.mostSpecificEntry .empty [['w']] [['k'], ['x']] = some ⟨[['k']], .deny⟩ ∧
      ([['k']] : AbsolutePath) ≠ [] ∧
      new ⟨fun _ => .error []⟩ policy .empty [['w']] = none :=
  ⟨by decide, by decide, rfl⟩

end ReadDenyMatcher

end Codex.Permissions
