/-
What a grant within a request allows, path by path.

On resolved entries the intersection is this (`IsIntersection`): the granted
entries that the request covers at their own path, and the deny entries of
either side that overlap one of them. The deny entries below
an accepted write entry are kept, the read entries are not.
-/
import Codex.PermissionFacts
import Codex.PermissionGrants

namespace Codex.Permissions

open Specificity FileSystemAccessMode

/-- What a mode allows: nothing, reading, or reading and writing. -/
def capability : FileSystemAccessMode → Nat
  | .deny => 0
  | .read => 1
  | .write => 2

theorem accessCovers_iff {requested granted} :
    accessCovers requested granted = true ↔ granted ≠ .deny ∧ capability granted ≤ capability requested := by
  cases requested <;> cases granted <;> decide

/-! ## On resolved entries -/

section
variable (req gr : List ResolvedFileSystemEntry)

/-- A granted entry the request covers at its own path, under none of the request's denied roots. -/
structure Accepts (r : ResolvedFileSystemEntry) : Prop where
  granted : r ∈ gr
  covers : accessCovers (modeAt .deny req r.path) r.mode = true
  notDenied : ∀ d, d ≠ [] → mostSpecific req d = some ⟨d, .deny⟩ → ¬ d <+: r.path

/-- A deny entry of either side that overlaps an accepted one. -/
structure Retains (r : ResolvedFileSystemEntry) : Prop where
  deny : r.mode = .deny
  source : r ∈ req ∨ r ∈ gr
  overlaps : ∃ g, Accepts req gr g ∧ (g.path <+: r.path ∨ r.path <+: g.path)

def IsIntersection (out : List ResolvedFileSystemEntry) : Prop := ∀ r, r ∈ out ↔ Accepts req gr r ∨ Retains req gr r

/-- Where the request reads at an entry below an accepted write entry, an accepted read entry or a
deny entry lies between the two. -/
def ReadCarveoutsKept : Prop :=
  ∀ r ∈ req, modeAt .deny req r.path = .read → ∀ e, Accepts req gr e → e.mode = .write → e.path <+: r.path →
    (∃ s, Accepts req gr s ∧ s.mode = .read ∧ e.path <+: s.path ∧ s.path ≠ e.path ∧ s.path <+: r.path) ∨
    ∃ n : ResolvedFileSystemEntry, n.mode = .deny ∧ (n ∈ req ∨ n ∈ gr) ∧ e.path <+: n.path ∧ n.path <+: r.path

end

variable {req gr out : List ResolvedFileSystemEntry} {p : AbsolutePath}

variable {r : ResolvedFileSystemEntry}

theorem Accepts.mode_ne (h : Accepts req gr r) : r.mode ≠ .deny := (accessCovers_iff.1 h.covers).1

/-- The request has an entry on the way to an accepted one. -/
theorem Accepts.exists_requested (h : Accepts req gr r) :
    ∃ s, mostSpecific req r.path = some s ∧ capability r.mode ≤ capability s.mode := by
  obtain ⟨hne, hle⟩ := accessCovers_iff.1 h.covers
  cases hs : mostSpecific req r.path with
  | none =>
    rw [modeAt, hs] at hle
    cases hmode : r.mode <;> simp_all [capability]
  | some s => exact ⟨s, rfl, by rwa [modeAt_of_mostSpecific hs] at hle⟩

/-- A deny entry on the way to `p`, overlapping an accepted entry that decides `p`, decides it first. -/
theorem IsIntersection.not_deny_below (h : IsIntersection req gr out) {n}
    (hr : mostSpecific out p = some r) (haccept : Accepts req gr r) (hdeny : n.mode = .deny) (hn : n ∈ req ∨ n ∈ gr)
    (hnp : n.path <+: p) (hrn : r.path <+: n.path) : False := by
  have hretain : n ∈ out := (h n).2 (.inr ⟨hdeny, hn, r, haccept, .inl hrn⟩)
  have hle := precedence_le.1 ((mostSpecific_eq_some.1 hr).2.2 n hretain hnp)
  have hlen := hrn.length_le
  have hmode : n.mode ≤ r.mode := (hle.resolve_left (by omega)).2
  rw [hdeny] at hmode
  exact haccept.mode_ne (le_antisymm (le_deny _) hmode)

/-- What the intersection allows, an accepted entry allows. -/
theorem IsIntersection.accepts_of_capability (h : IsIntersection req gr out) (hp : capability (modeAt .deny out p) ≠ 0) :
    ∃ r, mostSpecific out p = some r ∧ Accepts req gr r := by
  cases hr : mostSpecific out p with
  | none => simp [modeAt, hr, capability] at hp
  | some r =>
    refine ⟨r, rfl, ((h r).1 (mem_of_mostSpecific hr)).resolve_right fun hretain => ?_⟩
    rw [modeAt_of_mostSpecific hr, hretain.deny] at hp
    exact hp rfl

theorem prefix_total {a b} (ha : a <+: p) (hb : b <+: p) : a <+: b ∨ b <+: a :=
  (le_total a.length b.length).imp (List.prefix_of_prefix_length_le ha hb) (List.prefix_of_prefix_length_le hb ha)

/-- Below an accepted entry that decides `p`, the request denies nothing on the way to `p`. -/
theorem IsIntersection.requested_ne_deny (h : IsIntersection req gr out) {s q}
    (hr : mostSpecific out p = some r) (haccept : Accepts req gr r) (hrq : r.path <+: q) (hqp : q <+: p)
    (hs : mostSpecific req q = some s) : s.mode ≠ .deny := by
  intro hdeny
  rcases prefix_total ((covers_of_mostSpecific hs).trans hqp) (covers_of_mostSpecific hr) with hsr | hrs
  · obtain ⟨s', hs', hle⟩ := haccept.exists_requested
    rw [mostSpecific_between hs hsr hrq] at hs'
    cases hs'
    cases hmode : r.mode <;> simp_all [capability, haccept.mode_ne]
  · exact h.not_deny_below hr haccept hdeny (.inl (mem_of_mostSpecific hs)) ((covers_of_mostSpecific hs).trans hqp) hrs

theorem IsIntersection.le_granted (h : IsIntersection req gr out) (p : AbsolutePath) :
    capability (modeAt .deny out p) ≤ capability (modeAt .deny gr p) := by
  by_cases hp : capability (modeAt .deny out p) = 0
  · omega
  obtain ⟨r, hr, haccept⟩ := h.accepts_of_capability hp
  have hrp : r.path <+: p := covers_of_mostSpecific hr
  obtain ⟨g, hg, hrg⟩ := exists_mostSpecific haccept.granted hrp
  have hcov : r.path <+: g.path := covers_mostSpecific hg haccept.granted hrp
  have hgp : g.path <+: p := covers_of_mostSpecific hg
  rw [modeAt_of_mostSpecific hr, modeAt_of_mostSpecific hg]
  cases hmode : g.mode with
  | write => cases r.mode <;> decide
  | deny => exact (h.not_deny_below hr haccept hmode (.inr (mem_of_mostSpecific hg)) hgp hcov).elim
  | read =>
    -- the granted read entry is accepted too, so it decides `p` in the intersection
    have haccept' : Accepts req gr g := by
      refine ⟨mem_of_mostSpecific hg, accessCovers_iff.2 ⟨by simp [hmode], ?_⟩, fun d hd hdeny hdg => ?_⟩
      · obtain ⟨s, hs, -⟩ := haccept.exists_requested
        obtain ⟨s', hs', -⟩ := exists_mostSpecific (mem_of_mostSpecific hs) ((covers_of_mostSpecific hs).trans hcov)
        have hne := h.requested_ne_deny hr haccept hcov hgp hs'
        rw [modeAt_of_mostSpecific hs', hmode]
        cases hmode' : s'.mode <;> simp_all [capability]
      · rcases prefix_total (hdg.trans hgp) hrp with hdr | hrd
        · exact haccept.notDenied d hd hdeny hdr
        · exact h.requested_ne_deny hr haccept hrd (hdg.trans hgp) hdeny rfl
    have hgr : g.path <+: r.path := covers_mostSpecific hr ((h g).2 (.inl haccept')) hgp
    rw [precedence_le, hcov.eq_of_length_le hgr.length_le] at hrg
    have hle : r.mode ≤ .read := hmode ▸ (hrg.resolve_left (lt_irrefl _)).2
    cases hmode' : r.mode with
    | read => decide
    | write => exact absurd (hmode' ▸ hle) (by decide)
    | deny => decide

theorem IsIntersection.le_requested (h : IsIntersection req gr out) (hkept : ReadCarveoutsKept req gr) (p : AbsolutePath) :
    capability (modeAt .deny out p) ≤ capability (modeAt .deny req p) := by
  by_cases hp : capability (modeAt .deny out p) = 0
  · omega
  obtain ⟨r, hr, haccept⟩ := h.accepts_of_capability hp
  have hrp : r.path <+: p := covers_of_mostSpecific hr
  obtain ⟨s, hs, hle⟩ := haccept.exists_requested
  obtain ⟨f, hf, -⟩ := exists_mostSpecific (mem_of_mostSpecific hs) ((covers_of_mostSpecific hs).trans hrp)
  have hfp : f.path <+: p := covers_of_mostSpecific hf
  have hne := h.requested_ne_deny hr haccept hrp (List.prefix_refl p) hf
  rw [modeAt_of_mostSpecific hr, modeAt_of_mostSpecific hf]
  cases hmode : f.mode with
  | write => cases r.mode <;> decide
  | deny => exact absurd hmode hne
  | read =>
    cases hmode' : r.mode with
    | read => decide
    | deny => decide
    | write =>
      exfalso
      rcases prefix_total hfp hrp with hfr | hrf
      · rw [mostSpecific_between hf hfr hrp] at hs
        cases hs
        rw [hmode, hmode'] at hle
        exact absurd hle (by decide)
      · have hread : modeAt .deny req f.path = .read := by rw [modeAt_of_mostSpecific (mostSpecific_own hf), hmode]
        rcases hkept f (mem_of_mostSpecific hf) hread r haccept hmode' hrf with
          ⟨e, he, -, hre, hne', hef⟩ | ⟨n, hdeny, hn, hrn, hnf⟩
        · have her : e.path <+: r.path := covers_mostSpecific hr ((h e).2 (.inl he)) (hef.trans hfp)
          exact hne' (her.eq_of_length_le hre.length_le)
        · exact h.not_deny_below hr haccept hdeny hn (hnf.trans hfp) hrn

/-- **The request's bound.** Of an intersection, no path is allowed more than the request allows it
just when no read entry of the request is lost below an accepted write entry. -/
theorem IsIntersection.le_requested_iff (h : IsIntersection req gr out) :
    (∀ p, capability (modeAt .deny out p) ≤ capability (modeAt .deny req p)) ↔ ReadCarveoutsKept req gr := by
  refine ⟨fun hbound r hr hread e he hwrite hcov => ?_, fun hkept p => h.le_requested hkept p⟩
  by_contra hnot
  obtain ⟨w, hw, hew⟩ := exists_mostSpecific ((h e).2 (.inl he)) hcov
  have hwr : w.path <+: r.path := covers_of_mostSpecific hw
  have hcov' : e.path <+: w.path := covers_mostSpecific hw ((h e).2 (.inl he)) hcov
  rcases (h w).1 (mem_of_mostSpecific hw) with haccept | hretain
  · cases hmode : w.mode with
    | deny => exact haccept.mode_ne hmode
    | write =>
      have hle := hbound r.path
      rw [modeAt_of_mostSpecific hw, hread, hmode] at hle
      exact absurd hle (by decide)
    | read =>
      by_cases hpath : w.path = e.path
      · rw [precedence_le, hpath, hmode, hwrite] at hew
        exact absurd (hew.resolve_left (lt_irrefl _)).2 (by decide)
      · exact hnot (.inl ⟨w, haccept, hmode, hcov', hpath, hwr⟩)
  · exact hnot (.inr ⟨w, hretain.deny, hretain.source, hcov', hwr⟩)

/-! ## The intersection of profiles -/

section
variable {host : Host} {cwd : AbsolutePath} {globs : GlobMatchers} {requested granted : FileSystemPermissions}

def resolvedEntries (host : Host) (cwd : AbsolutePath) (entries : List FileSystemSandboxEntry) : List ResolvedFileSystemEntry :=
  (FileSystemSandboxPolicy.restricted entries).resolvedEntriesWithCwd host cwd

theorem resolvePermissionPath_eq (path : FileSystemPath) :
    resolvePermissionPath host cwd path = resolveEntryPath host cwd path := by
  cases path with
  | path path => rfl
  | globPattern pattern => rfl
  | special value =>
    cases value with
    | projectRoots subpath => cases subpath <;> rfl
    | _ => rfl

/-- An entry made independent of the working directory resolves as before. -/
theorem materialize_resolves (entry : FileSystemSandboxEntry) :
    resolveEntryPath host cwd (materializeCwdDependentEntry host cwd entry).path = resolveEntryPath host cwd entry.path ∧
      (materializeCwdDependentEntry host cwd entry).access = entry.access := by
  obtain ⟨path, access, missing⟩ := entry
  cases path with
  | path path => exact ⟨rfl, rfl⟩
  | globPattern pattern => exact ⟨rfl, rfl⟩
  | special value =>
    cases value with
    | projectRoots subpath => cases subpath <;> exact ⟨rfl, rfl⟩
    | _ => exact ⟨rfl, rfl⟩

theorem withinRequest_iff (hreq : NoGlobs requested.entries) {entry q}
    (hmem : ⟨q, entry.access⟩ ∈ resolvedEntries host cwd granted.entries) (hq : resolveEntryPath host cwd entry.path = some q) :
    grantedFileSystemEntryWithinRequest host cwd requested (.restricted requested.entries)
        (ReadDenyMatcher.new globs (.restricted requested.entries) host cwd) entry = true ↔
      Accepts (resolvedEntries host cwd requested.entries) (resolvedEntries host cwd granted.entries) ⟨q, entry.access⟩ := by
  have hdenied := @ReadDenyMatcher.new_denied_iff q (.restricted requested.entries) host cwd globs rfl
    (FileSystemSandboxPolicy.getUnreadableGlobs_eq_nil hreq)
  have haccess := @FileSystemSandboxPolicy.resolveAccess_restricted (.restricted requested.entries) host cwd rfl q
  rw [grantedFileSystemEntryWithinRequest, resolvePermissionPath_eq, hq]
  simp only [haccess]
  constructor
  · intro h
    split at h
    next => cases h
    next =>
      split at h
      next => cases h
      next hnot =>
        refine ⟨hmem, h, fun d hd hdeny hdq => hnot (hdenied.2 ⟨d, ?_, hdq⟩)⟩
        exact (FileSystemSandboxPolicy.mem_unreadableRoots rfl).2 ⟨hd, hdeny⟩
  · rintro ⟨-, hcov, hnot⟩
    have hne : entry.access ≠ .deny := (accessCovers_iff.1 hcov).1
    rw [if_neg (by simpa [canRead] using hne), if_neg]
    · exact hcov
    · intro h
      obtain ⟨d, hd, hdq⟩ := hdenied.1 h
      obtain ⟨hroot, hdeny⟩ := (FileSystemSandboxPolicy.mem_unreadableRoots rfl).1 hd
      exact hnot d hroot hdeny hdq

theorem mem_resolved_entries {entries} : r ∈ resolvedEntries host cwd entries ↔
      ∃ entry ∈ entries, resolveEntryPath host cwd entry.path = some r.path ∧ entry.access = r.mode := mem_resolvedEntries

theorem mem_acceptedEntries (hreq : NoGlobs requested.entries) {r} :
    r ∈ resolvedEntries host cwd (acceptedEntries host cwd globs requested granted) ↔
      Accepts (resolvedEntries host cwd requested.entries) (resolvedEntries host cwd granted.entries) r := by
  rw [mem_resolved_entries]
  simp only [acceptedEntries, mem_foldl_pushUnique, List.not_mem_nil, false_or, List.mem_map, List.mem_filter]
  constructor
  · rintro ⟨-, ⟨entry, ⟨hmem, hwithin⟩, rfl⟩, hpath, hmode⟩
    rw [(materialize_resolves entry).1] at hpath
    rw [(materialize_resolves entry).2] at hmode
    have hgranted : r ∈ resolvedEntries host cwd granted.entries := mem_resolved_entries.2 ⟨entry, hmem, hpath, hmode⟩
    obtain ⟨path, mode⟩ := r
    subst hmode
    exact (withinRequest_iff hreq hgranted hpath).1 hwithin
  · intro h
    obtain ⟨entry, hmem, hpath, hmode⟩ := mem_resolved_entries.1 h.granted
    obtain ⟨path, mode⟩ := r
    subst hmode
    refine ⟨_, ⟨entry, ⟨hmem, (withinRequest_iff hreq h.granted hpath).2 h⟩, rfl⟩, ?_, (materialize_resolves entry).2⟩
    rw [(materialize_resolves entry).1, hpath]

theorem denyEntryOverlaps_iff {entry n g} (hn : resolveEntryPath host cwd entry.path = some n) :
    denyEntryOverlaps host cwd entry g = true ↔ g <+: n ∨ n <+: g := by
  rw [denyEntryOverlaps]
  split
  next pattern hpath =>
    rw [hpath] at hn
    cases hn
  next => simp [resolvePermissionPath_eq, hn, pathsOverlap]

theorem denyEntryConstrains_iff {accepted entry} :
    denyEntryConstrainsAcceptedGrant host cwd accepted entry = true ↔
      ∃ g ∈ resolvedEntries host cwd accepted, g.mode ≠ .deny ∧ denyEntryOverlaps host cwd entry g.path = true := by
  simp only [denyEntryConstrainsAcceptedGrant, List.any_eq_true, List.mem_filter, resolvePermissionPath_eq,
    Option.any_eq_true, canRead, bne_iff_ne]
  constructor
  · rintro ⟨a, ⟨hmem, hread⟩, path, hpath, hoverlap⟩
    exact ⟨⟨path, a.access⟩, mem_resolved_entries.2 ⟨a, hmem, hpath, rfl⟩, hread, hoverlap⟩
  · rintro ⟨g, hg, hread, hoverlap⟩
    obtain ⟨a, hmem, hpath, hmode⟩ := mem_resolved_entries.1 hg
    exact ⟨a, ⟨hmem, hmode ▸ hread⟩, g.path, hpath, hoverlap⟩

theorem mem_retainedDenyEntries {accepted source} :
    r ∈ resolvedEntries host cwd (retainedDenyEntries host cwd accepted source) ↔
      r ∈ resolvedEntries host cwd source ∧ r.mode = .deny ∧
        ∃ g ∈ resolvedEntries host cwd accepted, g.mode ≠ .deny ∧ (g.path <+: r.path ∨ r.path <+: g.path) := by
  rw [mem_resolved_entries]
  simp only [retainedDenyEntries, List.mem_map, List.mem_filter, beq_iff_eq, denyEntryConstrains_iff]
  constructor
  · rintro ⟨-, ⟨entry, ⟨⟨hmem, hdeny⟩, g, hg, hread, hoverlap⟩, rfl⟩, hpath, hmode⟩
    rw [(materialize_resolves entry).1] at hpath
    rw [(materialize_resolves entry).2] at hmode
    exact ⟨mem_resolved_entries.2 ⟨entry, hmem, hpath, hmode⟩, hmode ▸ hdeny, g, hg, hread,
      (denyEntryOverlaps_iff hpath).1 hoverlap⟩
  · rintro ⟨hr, hdeny, g, hg, hread, hoverlap⟩
    obtain ⟨entry, hmem, hpath, hmode⟩ := mem_resolved_entries.1 hr
    refine ⟨_, ⟨entry, ⟨⟨hmem, hmode.trans hdeny⟩, g, hg, hread, (denyEntryOverlaps_iff hpath).2 hoverlap⟩, rfl⟩, ?_, ?_⟩
    · rw [(materialize_resolves entry).1, hpath]
    · rw [(materialize_resolves entry).2, hmode]

theorem intersectFileSystem_isIntersection (hreq : NoGlobs requested.entries) :
    IsIntersection (resolvedEntries host cwd requested.entries) (resolvedEntries host cwd granted.entries)
      (resolvedEntries host cwd (intersectFileSystemPermissions globs host cwd requested granted).entries) := by
  intro r
  have hsplit : ∀ entries new : List FileSystemSandboxEntry, r ∈ resolvedEntries host cwd (new.foldl pushUnique entries) ↔
      r ∈ resolvedEntries host cwd entries ∨ r ∈ resolvedEntries host cwd new := by
    intro entries new
    simp only [mem_resolved_entries, mem_foldl_pushUnique, or_and_right, exists_or]
  have hretained : ∀ source : List FileSystemSandboxEntry,
      r ∈ resolvedEntries host cwd (retainedDenyEntries host cwd (acceptedEntries host cwd globs requested granted) source) ↔
      r ∈ resolvedEntries host cwd source ∧ r.mode = .deny ∧
        ∃ g, Accepts (resolvedEntries host cwd requested.entries) (resolvedEntries host cwd granted.entries) g ∧
          (g.path <+: r.path ∨ r.path <+: g.path) := by
    intro source
    rw [mem_retainedDenyEntries]
    refine and_congr_right fun _ => and_congr_right fun _ => exists_congr fun g => ?_
    rw [mem_acceptedEntries hreq]
    exact ⟨fun h => ⟨h.1, h.2.2⟩, fun h => ⟨h.1, h.1.mode_ne, h.2⟩⟩
  rw [intersectFileSystemPermissions, hsplit, hsplit, mem_acceptedEntries hreq, hretained, hretained, or_assoc]
  refine or_congr_right ⟨?_, ?_⟩
  · rintro (⟨hsource, hdeny, hoverlaps⟩ | ⟨hsource, hdeny, hoverlaps⟩)
    exacts [⟨hdeny, .inl hsource, hoverlaps⟩, ⟨hdeny, .inr hsource, hoverlaps⟩]
  · rintro ⟨hdeny, hsource, hoverlaps⟩
    exact hsource.imp (⟨·, hdeny, hoverlaps⟩) (⟨·, hdeny, hoverlaps⟩)

end

namespace AdditionalPermissionProfile

/-- The filesystem entries of a profile, none where it has no filesystem part. -/
def entries (profile : AdditionalPermissionProfile) : List FileSystemSandboxEntry :=
  (profile.fileSystem.map FileSystemPermissions.entries).getD []

/-- The access a restricted policy made of the profile's entries gives. -/
def accessWithCwd (profile : AdditionalPermissionProfile) (host : Host) (cwd path : AbsolutePath) : FileSystemAccessMode :=
  (FileSystemSandboxPolicy.restricted profile.entries).resolveAccessWithCwd host cwd path

def NetworkEnabled (profile : AdditionalPermissionProfile) : Prop := profile.network = some ⟨some true⟩

end AdditionalPermissionProfile

section
variable {globs : GlobMatchers} {host : Host} {cwd : AbsolutePath} {requested granted : AdditionalPermissionProfile}

open AdditionalPermissionProfile

theorem entries_of_nonempty (permissions : FileSystemPermissions) :
    (((some permissions).filter fun permissions => !permissions.isEmpty).map FileSystemPermissions.entries).getD [] =
      permissions.entries := by
  obtain ⟨entries, depth⟩ := permissions
  cases entries <;> rfl

theorem intersect_isIntersection (hreq : NoGlobs requested.entries) :
    IsIntersection (resolvedEntries host cwd requested.entries) (resolvedEntries host cwd granted.entries)
      (resolvedEntries host cwd (intersectPermissionProfiles globs host cwd requested granted).entries) := by
  have hgranted : granted.entries = (granted.fileSystem.getD FileSystemPermissions.default).entries := by
    rw [entries]
    cases granted.fileSystem <;> rfl
  cases hfile : requested.fileSystem with
  | none =>
    have hnil : requested.entries = [] := by rw [entries, hfile]; rfl
    have hout : (intersectPermissionProfiles globs host cwd requested granted).entries = [] := by
      rw [entries, intersectPermissionProfiles, hfile]
      rfl
    rw [hnil, hout]
    have hnone : ∀ r, ¬ Accepts (resolvedEntries host cwd []) (resolvedEntries host cwd granted.entries) r := by
      intro r haccept
      obtain ⟨s, hs, -⟩ := haccept.exists_requested
      cases hs
    intro r
    refine iff_of_false (List.not_mem_nil) ?_
    rintro (haccept | hretain)
    · exact hnone r haccept
    · obtain ⟨g, hg, -⟩ := hretain.overlaps
      exact hnone g hg
  | some file =>
    have hentries : requested.entries = file.entries := by rw [entries, hfile]; rfl
    have hout : (intersectPermissionProfiles globs host cwd requested granted).entries =
        (intersectFileSystemPermissions globs host cwd file (granted.fileSystem.getD FileSystemPermissions.default)).entries := by
      rw [entries, intersectPermissionProfiles, hfile]
      exact entries_of_nonempty _
    rw [hout, hentries, hgranted]
    exact intersectFileSystem_isIntersection (hentries ▸ hreq)

theorem intersect_network (h : (intersectPermissionProfiles globs host cwd requested granted).NetworkEnabled) :
    requested.NetworkEnabled ∧ granted.NetworkEnabled := by
  simp only [NetworkEnabled, intersectPermissionProfiles] at h ⊢
  split at h
  next hr hg => exact ⟨hr, hg⟩
  next => cases h

end

/-- **What granting allows** is at most what the grant allows; it is at most what the request allows just when no
read entry of the request is lost below an accepted write entry. -/
theorem intersectPermissionProfiles_bounds_iff (globs : GlobMatchers) (host : Host) (cwd : AbsolutePath)
    (requested granted : AdditionalPermissionProfile) (hreq : NoGlobs requested.entries) :
    ((∀ path,
        capability ((intersectPermissionProfiles globs host cwd requested granted).accessWithCwd host cwd path) ≤
          capability (requested.accessWithCwd host cwd path) ∧
        capability ((intersectPermissionProfiles globs host cwd requested granted).accessWithCwd host cwd path) ≤
          capability (granted.accessWithCwd host cwd path)) ∧
      ((intersectPermissionProfiles globs host cwd requested granted).NetworkEnabled →
        requested.NetworkEnabled ∧ granted.NetworkEnabled)) ↔
    ReadCarveoutsKept (resolvedEntries host cwd requested.entries) (resolvedEntries host cwd granted.entries) := by
  have hinter := @intersect_isIntersection globs host cwd requested granted hreq
  rw [and_iff_left intersect_network, ← hinter.le_requested_iff]
  exact forall_congr' fun path => and_iff_left (hinter.le_granted path)

/-- A request with a read entry and a deny entry below its write entry, and a grant of the first two. -/
theorem intersectPermissionProfiles_bounds_iff_nested :
    let requested : AdditionalPermissionProfile := ⟨some ⟨some true⟩, some ⟨[.new (.path [['w']]) .write,
      .new (.path [['w'], ['r']]) .read, .new (.path [['w'], ['k']]) .deny], none⟩⟩
    let granted : AdditionalPermissionProfile := ⟨some ⟨some true⟩, some ⟨[.new (.special (.projectRoots none)) .write,
      .new (.path [['w'], ['r']]) .read], none⟩⟩
    ((∀ path,
        capability ((intersectPermissionProfiles ⟨fun _ => .error []⟩ .empty [['w']] requested granted).accessWithCwd .empty
          [['w']] path) ≤ capability (requested.accessWithCwd .empty [['w']] path) ∧
        capability ((intersectPermissionProfiles ⟨fun _ => .error []⟩ .empty [['w']] requested granted).accessWithCwd .empty
          [['w']] path) ≤ capability (granted.accessWithCwd .empty [['w']] path)) ∧
      ((intersectPermissionProfiles ⟨fun _ => .error []⟩ .empty [['w']] requested granted).NetworkEnabled →
        requested.NetworkEnabled ∧ granted.NetworkEnabled)) ↔
    ReadCarveoutsKept (resolvedEntries .empty [['w']] requested.entries) (resolvedEntries .empty [['w']] granted.entries) :=
  intersectPermissionProfiles_bounds_iff _ _ _ _ _ (by simp [NoGlobs, AdditionalPermissionProfile.entries,
    FileSystemSandboxEntry.new])

/-- A granted write entry alone, where the request reads below it: the read entry is lost. -/
theorem intersectPermissionProfiles_loses_read :
    let requested : AdditionalPermissionProfile :=
      ⟨none, some ⟨[.new (.path [['w']]) .write, .new (.path [['w'], ['r']]) .read], none⟩⟩
    let granted : AdditionalPermissionProfile := ⟨none, some ⟨[.new (.path [['w']]) .write], none⟩⟩
    (intersectPermissionProfiles ⟨fun _ => .error []⟩ .empty [['w']] requested granted).accessWithCwd .empty [['w']]
        [['w'], ['r']] = .write ∧
      requested.accessWithCwd .empty [['w']] [['w'], ['r']] = .read ∧ ¬ capability .write ≤ capability .read := by
  decide

end Codex.Permissions
