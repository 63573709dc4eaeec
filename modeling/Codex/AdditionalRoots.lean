/-
Readable roots added to a policy (`protocol/src/permissions.rs`,
`with_additional_readable_roots`). A root that cannot be read gets a read entry, and the roots
after it are judged by the policy with that entry.
-/
import Codex.PermissionFacts

namespace Codex.Permissions

open Specificity FileSystemAccessMode

namespace FileSystemSandboxPolicy

def addReadableRoot (host : Host) (cwd : AbsolutePath) (policy : FileSystemSandboxPolicy)
    (root : AbsolutePath) : FileSystemSandboxPolicy :=
  if policy.canReadPathWithCwd host cwd root then policy
  else { policy with entries := policy.entries ++ [.new (.path root) .read] }

def withAdditionalReadableRoots (policy : FileSystemSandboxPolicy) (host : Host) (cwd : AbsolutePath)
    (additionalReadableRoots : List AbsolutePath) : FileSystemSandboxPolicy :=
  if policy.hasFullDiskReadAccess then policy
  else additionalReadableRoots.foldl (addReadableRoot host cwd) policy

end FileSystemSandboxPolicy

/-- No entry on the way to the path is at the root or below it. -/
def OpensTo (entries : List ResolvedFileSystemEntry) (root path : AbsolutePath) : Prop :=
  root <+: path ∧ ∀ r ∈ entries, r.path <+: path → ¬ root <+: r.path

instance (entries : List ResolvedFileSystemEntry) (root path : AbsolutePath) : Decidable (OpensTo entries root path) :=
  inferInstanceAs (Decidable (_ ∧ _))

variable {entries : List ResolvedFileSystemEntry} {root path : AbsolutePath} {host : Host} {cwd : AbsolutePath}

/-- What decides the path then decides the root. -/
theorem OpensTo.modeAt_eq (h : OpensTo entries root path) : modeAt .deny entries path = modeAt .deny entries root := by
  obtain ⟨hroot, hnone⟩ := h
  cases hpath : mostSpecific entries path with
  | none =>
    have hroot' : mostSpecific entries root = none :=
      mostSpecific_eq_none.2 fun r hr hcov => mostSpecific_eq_none.1 hpath r hr (hcov.trans hroot)
    rw [modeAt, modeAt, hpath, hroot']
  | some r =>
    have hcov := covers_of_mostSpecific hpath
    have habove := (List.prefix_or_prefix_of_prefix hcov hroot).resolve_right (hnone r (mem_of_mostSpecific hpath) hcov)
    rw [modeAt_of_mostSpecific hpath, modeAt_of_mostSpecific (mostSpecific_between hpath habove hroot)]

/-- A read entry for a root that is denied opens what nothing else decides. -/
theorem modeAt_concat_read (hdeny : modeAt .deny entries root = .deny) (path : AbsolutePath) :
    modeAt .deny (entries ++ [⟨root, .read⟩]) path =
      if OpensTo entries root path then .read else modeAt .deny entries path := by
  split
  next hopens =>
    have hlast : (⟨root, read⟩ : ResolvedFileSystemEntry) ∈ entries ++ [⟨root, read⟩] := List.mem_concat_self
    refine modeAt_of_mostSpecific (mostSpecific_eq_some.2 ⟨hlast, hopens.1, fun s hs hcov => ?_⟩)
    rcases List.mem_append.1 hs with hs | hs
    · refine precedence_le.2 (.inl (Nat.lt_of_not_le fun hle => hopens.2 s hs hcov ?_))
      exact List.prefix_of_prefix_length_le hopens.1 hcov hle
    · rw [List.mem_singleton.1 hs]
  next hopens =>
    by_cases hroot : root <+: path
    · obtain ⟨r, hr, hcov, hbelow⟩ : ∃ r ∈ entries, r.path <+: path ∧ root <+: r.path := by
        by_contra hnone
        exact hopens ⟨hroot, fun r hr hcov hbelow => hnone ⟨r, hr, hcov, hbelow⟩⟩
      obtain ⟨s, hs, -⟩ := exists_mostSpecific hr hcov
      have hs' := mostSpecific_eq_some.1 hs
      rw [modeAt_of_mostSpecific hs]
      refine modeAt_of_mostSpecific (mostSpecific_eq_some.2 ⟨List.mem_append_left _ hs'.1, hs'.2.1, fun t ht htcov => ?_⟩)
      rcases List.mem_append.1 ht with ht | ht
      · exact hs'.2.2 t ht htcov
      · rw [List.mem_singleton.1 ht, precedence_le]
        have hle := hbelow.trans (covers_mostSpecific hs hr hcov)
        rcases hle.length_le.lt_or_eq with hlt | heq
        · exact .inl hlt
        · obtain rfl := hle.eq_of_length heq
          rw [modeAt_of_mostSpecific (mostSpecific_own hs)] at hdeny
          exact .inr ⟨rfl, hdeny ▸ le_deny read⟩
    · rw [modeAt, modeAt, mostSpecific, mostSpecific, List.filter_append]
      simp [List.isPrefixOf_iff_prefix, hroot]

theorem opensTo_concat (h : ¬ OpensTo entries root path) (other : AbsolutePath) :
    OpensTo (entries ++ [⟨root, read⟩]) other path ↔ OpensTo entries other path := by
  refine and_congr_right fun _ => ⟨fun hnone r hr => hnone r (List.mem_append_left _ hr), fun hnone r hr hcov hbelow => ?_⟩
  rcases List.mem_append.1 hr with hr | hr
  · exact hnone r hr hcov hbelow
  · obtain rfl := List.mem_singleton.1 hr
    exact h ⟨hcov, fun s hs hscov hsbelow => hnone s hs hscov (hbelow.trans hsbelow)⟩

namespace FileSystemSandboxPolicy

theorem resolveAccess_foldl (policy : FileSystemSandboxPolicy) (hkind : policy.kind = .restricted)
    (roots : List AbsolutePath) (path : AbsolutePath) :
    (roots.foldl (addReadableRoot host cwd) policy).resolveAccessWithCwd host cwd path =
      if policy.resolveAccessWithCwd host cwd path = .deny ∧
          ∃ root ∈ roots, OpensTo (policy.resolvedEntriesWithCwd host cwd) root path then .read
      else policy.resolveAccessWithCwd host cwd path := by
  induction roots generalizing policy with
  | nil => exact (if_neg fun h => absurd h.2 (by simp)).symm
  | cons root roots ih =>
    rw [List.foldl_cons, addReadableRoot]
    simp only [List.exists_mem_cons_iff]
    split
    next hread =>
      rw [canRead_iff, resolveAccess_restricted hkind] at hread
      rw [ih policy hkind]
      refine if_congr (and_congr_right fun hdeny => (or_iff_right fun hopens => hread ?_).symm) rfl rfl
      rwa [← hopens.modeAt_eq, ← resolveAccess_restricted hkind]
    next hread =>
      rw [canRead_iff, not_not, resolveAccess_restricted hkind] at hread
      have hentries : ({ policy with entries := policy.entries ++ [.new (.path root) .read] } :
          FileSystemSandboxPolicy).resolvedEntriesWithCwd host cwd =
          policy.resolvedEntriesWithCwd host cwd ++ [⟨root, .read⟩] := by
        rw [resolvedEntriesWithCwd, List.filterMap_append]
        rfl
      refine (ih _ ?_).trans ?_
      · exact hkind
      rw [resolveAccess_restricted hkind, resolveAccess_restricted, hentries, modeAt_concat_read hread]
      · by_cases hopens : OpensTo (policy.resolvedEntriesWithCwd host cwd) root path
        · rw [if_pos hopens, if_neg (by simp), if_pos ⟨hopens.modeAt_eq.trans hread, .inl hopens⟩]
        · simp only [opensTo_concat hopens, hopens, if_false, false_or]
      · exact hkind

/-- **What adding readable roots opens.** A path keeps its access unless it was denied and is below an added root
with no entry of the policy between, or at the root; then it can be read. -/
theorem withAdditionalReadableRoots_access (policy : FileSystemSandboxPolicy) (host : Host) (cwd : AbsolutePath)
    (roots : List AbsolutePath) (path : AbsolutePath) :
    (policy.withAdditionalReadableRoots host cwd roots).resolveAccessWithCwd host cwd path =
      if policy.hasFullDiskReadAccess = false ∧ policy.resolveAccessWithCwd host cwd path = .deny ∧
          ∃ root ∈ roots, OpensTo (policy.resolvedEntriesWithCwd host cwd) root path then .read
      else policy.resolveAccessWithCwd host cwd path := by
  rw [withAdditionalReadableRoots]
  cases hfull : policy.hasFullDiskReadAccess with
  | true => simp
  | false => simpa using @resolveAccess_foldl host cwd policy (restricted_of_not_fullRead hfull) roots path

end FileSystemSandboxPolicy

end Codex.Permissions
