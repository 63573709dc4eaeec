/-
Making a policy's project roots concrete (`protocol/src/permissions.rs`,
`materialize_project_roots_with_cwd`). Afterwards each entry resolves to the path it resolved to
before, whatever the later working directory, so every path has the same access
(`resolveAccess_materialize`). Full-disk write access is decided on the entries as they are
written, and is only gained; a symbolic glob pattern is only here read as one.
-/
import Codex.PermissionFacts

namespace Codex.Permissions

/-! ## The rewriting -/

def projectRootsGlobPatternPrefix : Text := "codex-project-roots://".toList

def parseProjectRootsGlobPattern (pattern : Text) : Option Text := Text.stripStart projectRootsGlobPatternPrefix pattern

def resolveProjectRootsGlobPattern (host : Host) (subpath : Text) (root : AbsolutePath) : Text :=
  (resolvePathAgainstBase host.home subpath root).display

/-- The loop's body, on an entry's path. -/
def materializePath (host : Host) (cwd : AbsolutePath) : FileSystemPath → FileSystemPath
  | .special (.projectRoots subpath) =>
    match resolveFileSystemPath host cwd (.special (.projectRoots subpath)) with
    | some path => .path path
    | none => .special (.projectRoots subpath)
  | .globPattern pattern =>
    match parseProjectRootsGlobPattern pattern with
    | some subpath => .globPattern (resolveProjectRootsGlobPattern host subpath cwd)
    | none => .globPattern pattern
  | path => path

def materializeEntry (host : Host) (cwd : AbsolutePath) (entry : FileSystemSandboxEntry) : FileSystemSandboxEntry :=
  { entry with path := materializePath host cwd entry.path }

def FileSystemSandboxPolicy.materializeProjectRootsWithCwd (policy : FileSystemSandboxPolicy) (host : Host)
    (cwd : AbsolutePath) : FileSystemSandboxPolicy :=
  { policy with entries := policy.entries.map (materializeEntry host cwd) }

variable {host : Host} {cwd later : AbsolutePath} {policy : FileSystemSandboxPolicy} {path : AbsolutePath}

/-! ## Access -/

theorem resolveEntryPath_materialize (target : FileSystemPath) :
    resolveEntryPath host later (materializePath host cwd target) = resolveEntryPath host cwd target := by
  cases target with
  | path => rfl
  | globPattern pattern =>
    rw [materializePath]
    split <;> rfl
  | special value =>
    cases value with
    | projectRoots subpath => cases subpath <;> rfl
    | _ => rfl

theorem resolvedEntries_materialize : (policy.materializeProjectRootsWithCwd host cwd).resolvedEntriesWithCwd host later =
    policy.resolvedEntriesWithCwd host cwd := by
  rw [FileSystemSandboxPolicy.resolvedEntriesWithCwd, FileSystemSandboxPolicy.materializeProjectRootsWithCwd,
    List.filterMap_map]
  refine List.filterMap_congr fun entry _ => ?_
  simp only [Function.comp_apply, materializeEntry, resolveEntryPath_materialize]

theorem resolveAccess_materialize (path : AbsolutePath) :
    (policy.materializeProjectRootsWithCwd host cwd).resolveAccessWithCwd host later path =
      policy.resolveAccessWithCwd host cwd path := by
  simp only [FileSystemSandboxPolicy.resolveAccessWithCwd, FileSystemSandboxPolicy.mostSpecificEntry,
    resolvedEntries_materialize]
  rfl

theorem isMetadataWriteDenied_materialize (path : AbsolutePath) :
    (policy.materializeProjectRootsWithCwd host cwd).isMetadataWriteDenied host later path =
      policy.isMetadataWriteDenied host cwd path := by
  simp only [FileSystemSandboxPolicy.isMetadataWriteDenied, metadataChildOfWritableRoot,
    hasExplicitWriteEntryForMetadataPath, resolvedEntries_materialize]
  rfl

/-! ## Full-disk write access -/

theorem shareTarget_materialize {left right} (h : fileSystemPathsShareTarget left right = true) :
    fileSystemPathsShareTarget (materializePath host cwd left) (materializePath host cwd right) = true := by
  cases left with
  | path left =>
    cases right with
    | path right => exact h
    | globPattern pattern => cases h
    | special value => cases value <;> first | exact h | cases h
  | globPattern left =>
    cases right with
    | globPattern right =>
      obtain rfl : left = right := eq_of_beq h
      rw [materializePath]
      split <;> exact beq_self_eq_true _
    | _ => cases h
  | special value =>
    cases right with
    | path right => cases value <;> first | exact h | cases h
    | globPattern pattern => cases h
    | special value' =>
      cases value <;> cases value' <;> first | exact h | cases h | skip
      next subpath subpath' =>
        obtain rfl : subpath = subpath' := eq_of_beq h
        cases subpath <;> exact beq_self_eq_true _

theorem override_materialize {entry} (h : policy.hasSameTargetWriteOverride entry = true) :
    (policy.materializeProjectRootsWithCwd host cwd).hasSameTargetWriteOverride (materializeEntry host cwd entry) = true := by
  obtain ⟨candidate, hmem, hover⟩ := List.any_eq_true.1 h
  rw [Bool.and_eq_true] at hover
  refine List.any_eq_true.2 ⟨materializeEntry host cwd candidate, List.mem_map_of_mem hmem, ?_⟩
  rw [Bool.and_eq_true]
  exact ⟨hover.1, shareTarget_materialize hover.2⟩

theorem narrowsWrite_materialize {entry} (h : policy.narrowsWrite entry = false) :
    (policy.materializeProjectRootsWithCwd host cwd).narrowsWrite (materializeEntry host cwd entry) = false := by
  obtain ⟨target, access, behavior⟩ := entry
  have hover : (!policy.hasSameTargetWriteOverride ⟨target, access, behavior⟩) = false →
      (!(policy.materializeProjectRootsWithCwd host cwd).hasSameTargetWriteOverride
        (materializeEntry host cwd ⟨target, access, behavior⟩)) = false :=
    fun h => congrArg not (override_materialize (by simpa using h))
  unfold FileSystemSandboxPolicy.narrowsWrite at h ⊢
  split at h
  next hwrite => exact if_pos hwrite
  next hwrite =>
    refine (if_neg hwrite).trans ?_
    cases target with
    | path path => exact hover h
    | globPattern pattern => cases h
    | special value =>
      cases value with
      | root => exact h
      | minimal => exact h
      | unknown => exact h
      | tmpdir => exact hover h
      | slashTmp => exact hover h
      | projectRoots subpath => cases subpath <;> exact hover h

theorem hasFullDiskWriteAccess_materialize (h : policy.hasFullDiskWriteAccess = true) :
    (policy.materializeProjectRootsWithCwd host cwd).hasFullDiskWriteAccess = true := by
  obtain ⟨kind, depth, entries⟩ := policy
  cases kind with
  | unrestricted => rfl
  | externalSandbox => rfl
  | restricted =>
    obtain ⟨hroot, hnarrow⟩ := Bool.and_eq_true_iff.1 h
    refine Bool.and_eq_true_iff.2 ⟨?_, ?_⟩
    · obtain ⟨entry, hmem, hentry⟩ := List.any_eq_true.1 (Bool.and_eq_true_iff.1 hroot).2
      obtain ⟨hpath, haccess⟩ := Bool.and_eq_true_iff.1 hentry
      refine List.any_eq_true.2 ⟨materializeEntry host cwd entry, List.mem_map_of_mem hmem, ?_⟩
      rw [materializeEntry, eq_of_beq hpath]
      exact haccess
    · simp only [FileSystemSandboxPolicy.hasWriteNarrowingEntries, Bool.not_eq_true', Bool.and_eq_false_iff,
        List.any_eq_false] at hnarrow ⊢
      refine hnarrow.imp id fun hnone entry hmem => ?_
      obtain ⟨entry, hentry, rfl⟩ := List.mem_map.1 hmem
      exact Bool.eq_false_iff.1 (narrowsWrite_materialize (Bool.eq_false_iff.2 (hnone entry hentry)))

theorem canWritePath_materialize (path : AbsolutePath) :
    (policy.materializeProjectRootsWithCwd host cwd).canWritePathWithCwd host later path =
      if policy.hasFullDiskWriteAccess = (policy.materializeProjectRootsWithCwd host cwd).hasFullDiskWriteAccess then
        policy.canWritePathWithCwd host cwd path
      else (policy.resolveAccessWithCwd host cwd path).canWrite := by
  simp only [FileSystemSandboxPolicy.canWritePathWithCwd, resolveAccess_materialize, isMetadataWriteDenied_materialize]
  by_cases heq : policy.hasFullDiskWriteAccess = (policy.materializeProjectRootsWithCwd host cwd).hasFullDiskWriteAccess
  · rw [if_pos heq, heq]
  · rw [if_neg heq]
    cases hpolicy : policy.hasFullDiskWriteAccess with
    | true => exact absurd (hpolicy.trans (hasFullDiskWriteAccess_materialize hpolicy).symm) heq
    | false =>
      rw [hpolicy] at heq
      rw [if_pos (Bool.eq_true_of_not_eq_false (Ne.symm heq))]
      cases (policy.resolveAccessWithCwd host cwd path).canWrite <;> rfl

/-! ## Deny globs -/

/-- A name as a component of a normalized path. -/
def ProperName (name : Text) : Prop := name ≠ [] ∧ name ≠ ['.'] ∧ '/' ∉ name

/-- An `AbsolutePathBuf` is absolute and normalized. -/
def Proper (p : AbsolutePath) : Prop := ∀ name ∈ p, ProperName name ∧ name ≠ ['.', '.']

theorem not_mem_of_mem_splitOn : ∀ {text part : Text}, part ∈ text.splitOn '/' → '/' ∉ part
  | [], part, h => by
    rw [List.splitOn_nil, List.mem_singleton] at h
    rw [h]
    exact List.not_mem_nil
  | c :: text, part, h => by
    have ih := fun part => @not_mem_of_mem_splitOn text part
    rw [List.splitOn_cons_eq_if_modifyHead] at h
    split at h
    next =>
      rcases List.mem_cons.1 h with rfl | h
      exacts [List.not_mem_nil, ih part h]
    next hc =>
      obtain ⟨first, rest, hsplit⟩ := List.exists_cons_of_ne_nil (List.splitOn_ne_nil '/' text)
      rw [hsplit] at h ih
      rcases List.mem_cons.1 h with rfl | h
      · intro hmem
        rcases List.mem_cons.1 hmem with rfl | hmem
        · exact hc rfl
        · exact ih first List.mem_cons_self hmem
      · exact ih part (List.mem_cons_of_mem _ h)

theorem proper_normalizeComponents {base} (hbase : Proper base) : ∀ {components : List Text},
    (∀ name ∈ components, ProperName name) → Proper (normalizeComponents base components) := by
  intro components h
  rw [normalizeComponents]
  induction components generalizing base with
  | nil => exact hbase
  | cons name components ih =>
    refine ih ?_ fun name' hmem => h name' (List.mem_cons_of_mem _ hmem)
    dsimp only
    split
    next => exact fun name' hmem => hbase name' (List.dropLast_subset _ hmem)
    next hparent =>
      intro name' hmem
      rcases List.mem_append.1 hmem with hmem | hmem
      · exact hbase name' hmem
      · rw [List.mem_singleton.1 hmem]
        exact ⟨h name List.mem_cons_self, hparent⟩

theorem properName_of_mem_pathComponents {text name : Text} (h : name ∈ pathComponents text) : ProperName name := by
  obtain ⟨hmem, hkept⟩ := List.mem_filter.1 h
  simp only [Bool.and_eq_true, bne_iff_ne] at hkept
  exact ⟨hkept.1, hkept.2, not_mem_of_mem_splitOn hmem⟩

theorem proper_resolve (hhome : ∀ home ∈ host.home, Proper home) (hcwd : Proper cwd) (text : Text) :
    Proper (resolvePathAgainstBase host.home text cwd) := by
  have hcomponents := fun text name => @properName_of_mem_pathComponents text name
  unfold resolvePathAgainstBase
  split
  next home heq => exact hhome home heq
  next home rest heq => exact proper_normalizeComponents (hhome home heq) (hcomponents rest)
  next rest => exact proper_normalizeComponents (List.forall_mem_nil _) (hcomponents rest)
  next => exact proper_normalizeComponents hcwd (hcomponents _)

theorem normalizeComponents_proper {p} (h : Proper p) (base : AbsolutePath) :
    normalizeComponents base p = base ++ p := by
  rw [normalizeComponents]
  induction p generalizing base with
  | nil => exact (List.append_nil base).symm
  | cons name p ih =>
    rw [List.foldl_cons, if_neg (h name List.mem_cons_self).2, ih fun name' hmem => h name' (List.mem_cons_of_mem _ hmem),
      List.append_assoc]
    rfl

theorem splitOn_display {name : Text} {p} (h : Proper (name :: p)) :
    (name ++ p.flatMap fun name => '/' :: name).splitOn '/' = name :: p := by
  induction p generalizing name with
  | nil =>
    rw [List.flatMap_nil, List.append_nil]
    exact List.splitOn_eq_singleton (h name List.mem_cons_self).1.2.2
  | cons next p ih =>
    rw [List.flatMap_cons, List.cons_append,
      List.splitOn_append_cons_self_of_not_mem (h name List.mem_cons_self).1.2.2,
      ih fun name' hmem => h name' (List.mem_cons_of_mem _ hmem)]

/-- A path's text is read back as the path, whatever the directory. -/
theorem resolve_display (home : Option AbsolutePath) {p} (h : Proper p) (base : AbsolutePath) :
    resolvePathAgainstBase home p.display base = p := by
  cases p with
  | nil => cases home <;> rfl
  | cons name p =>
    have hfilter : pathComponents (name ++ p.flatMap fun name => '/' :: name) = name :: p := by
      rw [pathComponents, splitOn_display h, List.filter_eq_self]
      intro name' hmem
      rw [Bool.and_eq_true, bne_iff_ne, bne_iff_ne]
      exact ⟨(h name' hmem).1.1, (h name' hmem).1.2.1⟩
    have hdisplay : AbsolutePath.display (name :: p) = '/' :: (name ++ p.flatMap fun name => '/' :: name) := rfl
    rw [hdisplay]
    refine Eq.trans ?_ ((congrArg (normalizeComponents []) hfilter).trans (normalizeComponents_proper h []))
    cases home <;> rfl

def DeniesGlob (policy : FileSystemSandboxPolicy) (pattern : Text) : Prop :=
  ∃ entry ∈ policy.entries, entry.path = .globPattern pattern ∧ entry.access = .deny

theorem mem_getUnreadableGlobs {glob : Text} : glob ∈ policy.getUnreadableGlobsWithCwd host cwd ↔
    policy.kind = .restricted ∧
      ∃ pattern, DeniesGlob policy pattern ∧ glob = (resolvePathAgainstBase host.home pattern cwd).display := by
  rw [FileSystemSandboxPolicy.getUnreadableGlobsWithCwd]
  split
  next hkind => simp [bne_iff_ne.1 hkind]
  next hkind =>
    rw [mem_destutter_ne, List.mem_insertionSort, List.mem_filterMap]
    constructor
    · intro h
      obtain ⟨entry, hmem, hglob⟩ := h
      refine ⟨by simpa using hkind, ?_⟩
      rw [FileSystemSandboxPolicy.denyGlobPattern] at hglob
      split at hglob
      next pattern hpath =>
        split at hglob
        next hdeny => exact ⟨pattern, ⟨entry, hmem, hpath, hdeny⟩, (Option.some.inj hglob).symm⟩
        next => cases hglob
      next => cases hglob
    · intro h
      obtain ⟨-, pattern, ⟨entry, hmem, hpath, hdeny⟩, hglob⟩ := h
      refine ⟨entry, hmem, ?_⟩
      rw [FileSystemSandboxPolicy.denyGlobPattern, hpath, hglob]
      exact if_pos hdeny

/-- Absolute, or below the home directory: the pattern does not depend on the working directory. -/
def Anchored (host : Host) (pattern : Text) : Prop :=
  (∃ rest, pattern = '/' :: rest) ∨ host.home ≠ none ∧ (pattern = ['~'] ∨ ∃ rest, pattern = '~' :: '/' :: rest)

/-- What a deny glob of a policy made concrete at `cwd` is under a later directory. -/
def denyGlobUnder (host : Host) (cwd later : AbsolutePath) (pattern : Text) : Text :=
  match parseProjectRootsGlobPattern pattern with
  | some subpath => resolveProjectRootsGlobPattern host subpath cwd
  | none => (resolvePathAgainstBase host.home pattern later).display

theorem denyGlobUnder_anchored {pattern : Text} (h : Anchored host pattern) :
    denyGlobUnder host cwd later pattern = (resolvePathAgainstBase host.home pattern cwd).display := by
  rcases h with ⟨rest, rfl⟩ | ⟨hhome, rfl | ⟨rest, rfl⟩⟩
  · rw [denyGlobUnder]
    cases host.home <;> rfl
  all_goals
    obtain ⟨home, hhome⟩ := Option.ne_none_iff_exists'.1 hhome
    rw [denyGlobUnder, hhome]
    rfl

theorem denyGlobUnder_eq (hhome : ∀ home ∈ host.home, Proper home) (hcwd : Proper cwd) {pattern concrete : Text}
    (h : materializePath host cwd (.globPattern pattern) = .globPattern concrete) :
    (resolvePathAgainstBase host.home concrete later).display = denyGlobUnder host cwd later pattern := by
  rw [materializePath] at h
  rw [denyGlobUnder]
  split at h
  next subpath hparse =>
    obtain rfl := FileSystemPath.globPattern.inj h
    rw [resolveProjectRootsGlobPattern, resolve_display host.home (proper_resolve hhome hcwd subpath)]
  next hparse =>
    obtain rfl := FileSystemPath.globPattern.inj h
    rfl

theorem mem_globs_materialize (hhome : ∀ home ∈ host.home, Proper home) (hcwd : Proper cwd) {glob : Text} :
    glob ∈ (policy.materializeProjectRootsWithCwd host cwd).getUnreadableGlobsWithCwd host later ↔
      policy.kind = .restricted ∧ ∃ pattern, DeniesGlob policy pattern ∧ glob = denyGlobUnder host cwd later pattern := by
  rw [mem_getUnreadableGlobs]
  refine and_congr Iff.rfl ⟨?_, ?_⟩
  · intro h
    obtain ⟨concrete, ⟨entry, hmem, hpath, hdeny⟩, hglob⟩ := h
    obtain ⟨entry, hentry, rfl⟩ := List.mem_map.1 hmem
    cases htarget : entry.path with
    | globPattern pattern =>
      rw [materializeEntry, htarget] at hpath
      exact ⟨pattern, ⟨entry, hentry, htarget, hdeny⟩, hglob.trans (denyGlobUnder_eq hhome hcwd hpath)⟩
    | path path => rw [materializeEntry, htarget] at hpath; cases hpath
    | special value =>
      rw [materializeEntry, htarget] at hpath
      cases value with
      | projectRoots subpath => cases subpath <;> cases hpath
      | _ => cases hpath
  · intro h
    obtain ⟨pattern, ⟨entry, hentry, htarget, hdeny⟩, hglob⟩ := h
    have hconcrete : ∃ concrete, materializePath host cwd (.globPattern pattern) = .globPattern concrete := by
      rw [materializePath]
      split <;> exact ⟨_, rfl⟩
    obtain ⟨concrete, hpath⟩ := hconcrete
    refine ⟨concrete, ⟨materializeEntry host cwd entry, List.mem_map_of_mem hentry, ?_, hdeny⟩,
      hglob.trans (denyGlobUnder_eq hhome hcwd hpath).symm⟩
    rw [materializeEntry, htarget, hpath]

/-- **What making the project roots concrete preserves.** Under any later directory every path has the same access.
The paths that can be written are the same, unless full-disk write access is gained; relative deny globs follow
the later directory. -/
theorem materializeProjectRoots_preserves (hhome : ∀ home ∈ host.home, Proper home) (hcwd : Proper cwd)
    (policy : FileSystemSandboxPolicy) (later : AbsolutePath) :
    let concrete := policy.materializeProjectRootsWithCwd host cwd
    (∀ path, concrete.resolveAccessWithCwd host later path = policy.resolveAccessWithCwd host cwd path) ∧
      (∀ path, concrete.canWritePathWithCwd host later path =
        if policy.hasFullDiskWriteAccess = concrete.hasFullDiskWriteAccess then policy.canWritePathWithCwd host cwd path
        else (policy.resolveAccessWithCwd host cwd path).canWrite) ∧
      (policy.hasFullDiskWriteAccess = true → concrete.hasFullDiskWriteAccess = true) ∧
      (∀ glob, glob ∈ concrete.getUnreadableGlobsWithCwd host later ↔ policy.kind = .restricted ∧
        ∃ pattern, DeniesGlob policy pattern ∧ glob = denyGlobUnder host cwd later pattern) ∧
      ((∀ pattern, DeniesGlob policy pattern → Anchored host pattern) → ∀ glob,
        glob ∈ concrete.getUnreadableGlobsWithCwd host later ↔ glob ∈ policy.getUnreadableGlobsWithCwd host cwd) := by
  refine ⟨resolveAccess_materialize, canWritePath_materialize, hasFullDiskWriteAccess_materialize,
    fun glob => mem_globs_materialize hhome hcwd, fun hanchored glob => ?_⟩
  rw [mem_globs_materialize hhome hcwd, mem_getUnreadableGlobs]
  refine and_congr Iff.rfl (exists_congr fun pattern => and_congr_right fun hdenies => ?_)
  rw [denyGlobUnder_anchored (hanchored pattern hdenies)]

/-- Project roots at `/w` that can be written. -/
theorem materializeProjectRoots_absolute :
    let policy : FileSystemSandboxPolicy := .restricted [.new (.special (.projectRoots none)) .write]
    let concrete := policy.materializeProjectRootsWithCwd .empty [['w']]
    (∀ path, concrete.resolveAccessWithCwd .empty [['v']] path = policy.resolveAccessWithCwd .empty [['w']] path) ∧
      ∀ path, concrete.canWritePathWithCwd .empty [['v']] path = policy.canWritePathWithCwd .empty [['w']] path := by
  intro policy
  obtain ⟨haccess, hwrite, -⟩ := @materializeProjectRoots_preserves .empty [['w']] (by simp [Host.empty, Host.ofFiles])
    (by simp [Proper, ProperName]) policy [['v']]
  exact ⟨haccess, fun path => (hwrite path).trans (if_pos (by decide))⟩

/-- A symbolic glob, a relative one, and a root that is read and written: none is as it was. -/
theorem materializeProjectRoots_changes :
    let symbolic : FileSystemSandboxPolicy := .restricted [.new (.globPattern "codex-project-roots://*.env".toList) .deny]
    let relative : FileSystemSandboxPolicy := .restricted [.new (.globPattern "*.env".toList) .deny]
    let written : FileSystemSandboxPolicy := .restricted [.new (.special .root) .write,
      .new (.special (.projectRoots none)) .read, .new (.path [['w']]) .write]
    symbolic.getUnreadableGlobsWithCwd .empty [['w']] = ["/w/codex-project-roots:/*.env".toList] ∧
      (symbolic.materializeProjectRootsWithCwd .empty [['w']]).getUnreadableGlobsWithCwd .empty [['w']] =
        ["/w/*.env".toList] ∧
      relative.getUnreadableGlobsWithCwd .empty [['w']] = ["/w/*.env".toList] ∧
      (relative.materializeProjectRootsWithCwd .empty [['w']]).getUnreadableGlobsWithCwd .empty [['v']] =
        ["/v/*.env".toList] ∧
      written.canWritePathWithCwd .empty [['w']] [['w'], dotGit] = false ∧
      (written.materializeProjectRootsWithCwd .empty [['w']]).canWritePathWithCwd .empty [['w']] [['w'], dotGit] = true := by
  decide +kernel

end Codex.Permissions
