/-
The order of a policy's entries and what may be written. The access of a path is that of its most
specific entry and does not depend on the order. For the protected metadata the code takes the
first write entry that has the path below a metadata name and asks whether a write entry is made
for that one metadata path: nested write entries have more than one, and the first decides.

Source: protocol/src/permissions.rs.
-/
import Codex.PermissionFacts

namespace Codex.Permissions

open Specificity FileSystemAccessMode

variable {policy : FileSystemSandboxPolicy} {host : Host} {cwd target : AbsolutePath}

/-- The entries in any order give the same answer. -/
def OrderIndependent (policy : FileSystemSandboxPolicy) (host : Host) (cwd target : AbsolutePath) : Prop :=
  ∀ entries, entries.Perm policy.entries →
    ({ policy with entries } : FileSystemSandboxPolicy).canWritePathWithCwd host cwd target =
      policy.canWritePathWithCwd host cwd target

/-- The metadata paths on the way to `target`, each directly below a write entry. -/
def metadataChildren (policy : FileSystemSandboxPolicy) (host : Host) (cwd target : AbsolutePath) : List AbsolutePath :=
  (((policy.resolvedEntriesWithCwd host cwd).filter fun entry => entry.mode.canWrite).filterMap
    (metadataChild target)).map Prod.fst

/-- A write entry is made for all metadata paths on the way, or for none of them. -/
def ChildrenAgree (policy : FileSystemSandboxPolicy) (host : Host) (cwd target : AbsolutePath) : Prop :=
  ∀ m ∈ metadataChildren policy host cwd target, ∀ m' ∈ metadataChildren policy host cwd target,
    hasExplicitWriteEntryForMetadataPath policy host cwd m target =
      hasExplicitWriteEntryForMetadataPath policy host cwd m' target

/-! ## What does not depend on the order -/

section
variable {entries : List FileSystemSandboxEntry}

theorem any_reordered {α : Type} {xs ys : List α} (h : xs.Perm ys) (p : α → Bool) : xs.any p = ys.any p := by
  rw [Bool.eq_iff_iff, List.any_eq_true, List.any_eq_true]
  simp only [h.mem_iff]

theorem resolvedEntries_reordered (h : entries.Perm policy.entries) :
    (({ policy with entries } : FileSystemSandboxPolicy).resolvedEntriesWithCwd host cwd).Perm
      (policy.resolvedEntriesWithCwd host cwd) := h.filterMap _

theorem resolveAccess_reordered (h : entries.Perm policy.entries) :
    ({ policy with entries } : FileSystemSandboxPolicy).resolveAccessWithCwd host cwd target =
      policy.resolveAccessWithCwd host cwd target := by
  have hsame : ({ policy with entries } : FileSystemSandboxPolicy).mostSpecificEntry host cwd target =
      policy.mostSpecificEntry host cwd target := by
    refine Option.ext fun r => ?_
    unfold FileSystemSandboxPolicy.mostSpecificEntry
    rw [mostSpecific_eq_some, mostSpecific_eq_some]
    simp only [(resolvedEntries_reordered h).mem_iff]
  unfold FileSystemSandboxPolicy.resolveAccessWithCwd
  rw [hsame]

theorem hasFullDiskWriteAccess_reordered (h : entries.Perm policy.entries) :
    ({ policy with entries } : FileSystemSandboxPolicy).hasFullDiskWriteAccess = policy.hasFullDiskWriteAccess := by
  have hoverride : ∀ entry, ({ policy with entries } : FileSystemSandboxPolicy).hasSameTargetWriteOverride entry =
      policy.hasSameTargetWriteOverride entry := fun entry => any_reordered h _
  have hnarrows : ({ policy with entries } : FileSystemSandboxPolicy).narrowsWrite = policy.narrowsWrite := by
    funext entry
    unfold FileSystemSandboxPolicy.narrowsWrite
    rw [hoverride]
  unfold FileSystemSandboxPolicy.hasFullDiskWriteAccess FileSystemSandboxPolicy.hasRootAccess
    FileSystemSandboxPolicy.hasWriteNarrowingEntries
  rw [hnarrows, any_reordered h, any_reordered h]

theorem hasExplicit_reordered (h : entries.Perm policy.entries) (m : AbsolutePath) :
    hasExplicitWriteEntryForMetadataPath { policy with entries } host cwd m target =
      hasExplicitWriteEntryForMetadataPath policy host cwd m target := any_reordered (resolvedEntries_reordered h) _

theorem metadataChildren_reordered (h : entries.Perm policy.entries) :
    (metadataChildren { policy with entries } host cwd target).Perm (metadataChildren policy host cwd target) :=
  (((resolvedEntries_reordered h).filter _).filterMap _).map _

end

/-! ## What does -/

/-- **The first metadata path decides**, where the access is to write and not to the whole disk. -/
theorem canWrite_eq_head (haccess : (policy.resolveAccessWithCwd host cwd target).canWrite = true)
    (hfull : policy.hasFullDiskWriteAccess = false) :
    policy.canWritePathWithCwd host cwd target = (metadataChildren policy host cwd target).head?.all fun m =>
      hasExplicitWriteEntryForMetadataPath policy host cwd m target := by
  have hkind := FileSystemSandboxPolicy.restricted_of_not_fullWrite hfull
  unfold FileSystemSandboxPolicy.canWritePathWithCwd FileSystemSandboxPolicy.isMetadataWriteDenied
    metadataChildOfWritableRoot metadataChildren
  rw [haccess, hfull, hkind, List.head?_map, List.head?_filterMap]
  cases ((policy.resolvedEntriesWithCwd host cwd).filter fun entry => entry.mode.canWrite).findSome?
    (metadataChild target) with
  | none => rfl
  | some child => simp

theorem exists_order {m} (hm : m ∈ metadataChildren policy host cwd target) :
    ∃ entries, entries.Perm policy.entries ∧
      (metadataChildren { policy with entries } host cwd target).head? = some m := by
  obtain ⟨child, hchild, rfl⟩ := List.mem_map.1 hm
  obtain ⟨r, hr, hmetadata⟩ := List.mem_filterMap.1 hchild
  obtain ⟨hr, hwrite⟩ := List.mem_filter.1 hr
  obtain ⟨entry, hentry, hpath, haccess⟩ := mem_resolvedEntries.1 hr
  refine ⟨entry :: policy.entries.erase entry, (List.perm_cons_erase hentry).symm, ?_⟩
  have hresolved : (resolveEntryPath host cwd entry.path).map (fun path => (⟨path, entry.access⟩ : ResolvedFileSystemEntry)) =
      some r := by
    rw [hpath, haccess]
    rfl
  have hfirst : ({ policy with entries := entry :: policy.entries.erase entry } : FileSystemSandboxPolicy).resolvedEntriesWithCwd
      host cwd = r :: ({ policy with entries := policy.entries.erase entry } : FileSystemSandboxPolicy).resolvedEntriesWithCwd
        host cwd := List.filterMap_cons_some hresolved
  unfold metadataChildren
  rw [hfirst, List.filter_cons_of_pos (p := fun entry : ResolvedFileSystemEntry => entry.mode.canWrite) hwrite,
    List.filterMap_cons_some hmetadata]
  rfl

theorem all_head_reordered {α : Type} {xs ys : List α} (h : xs.Perm ys) {p : α → Bool}
    (hagree : ∀ y ∈ ys, ∀ y' ∈ ys, p y = p y') : xs.head?.all p = ys.head?.all p := by
  cases xs with
  | nil => rw [List.nil_perm.1 h]
  | cons x xs =>
    cases ys with
    | nil => exact absurd (List.perm_nil.1 h) (List.cons_ne_nil x xs)
    | cons y ys => exact hagree x (h.subset List.mem_cons_self) y List.mem_cons_self

/-- **The answer does not depend on the order** where all metadata paths agree, and only there if they matter. -/
theorem orderIndependent_iff (policy : FileSystemSandboxPolicy) (host : Host) (cwd target : AbsolutePath) :
    OrderIndependent policy host cwd target ↔
      (policy.resolveAccessWithCwd host cwd target).canWrite = false ∨ policy.hasFullDiskWriteAccess = true ∨
        ChildrenAgree policy host cwd target := by
  by_cases haccess : (policy.resolveAccessWithCwd host cwd target).canWrite = true
  · cases hfull : policy.hasFullDiskWriteAccess with
    | true =>
      refine iff_of_true ?_ (.inr (.inl rfl))
      intro entries hperm
      unfold FileSystemSandboxPolicy.canWritePathWithCwd
      rw [resolveAccess_reordered hperm, hasFullDiskWriteAccess_reordered hperm, haccess, hfull]
      rfl
    | false =>
      have hanswer : ∀ entries, entries.Perm policy.entries →
          ({ policy with entries } : FileSystemSandboxPolicy).canWritePathWithCwd host cwd target =
            (metadataChildren { policy with entries } host cwd target).head?.all fun m =>
              hasExplicitWriteEntryForMetadataPath policy host cwd m target := by
        intro entries hperm
        rw [canWrite_eq_head (by rw [resolveAccess_reordered hperm, haccess])
          (by rw [hasFullDiskWriteAccess_reordered hperm, hfull])]
        simp only [hasExplicit_reordered hperm]
      constructor
      · intro h
        refine .inr (.inr ?_)
        intro m hm m' hm'
        obtain ⟨entries, hperm, hhead⟩ := exists_order hm
        obtain ⟨entries', hperm', hhead'⟩ := exists_order hm'
        have hfirst := (hanswer entries hperm).symm.trans (h entries hperm)
        have hfirst' := (hanswer entries' hperm').symm.trans (h entries' hperm')
        rw [hhead] at hfirst
        rw [hhead'] at hfirst'
        exact hfirst.trans hfirst'.symm
      · rintro (hno | hyes | hagree)
        · rw [haccess] at hno
          cases hno
        · cases hyes
        · intro entries hperm
          rw [hanswer entries hperm, canWrite_eq_head haccess hfull]
          exact all_head_reordered (metadataChildren_reordered hperm) hagree
  · refine iff_of_true ?_ (.inl (by simpa using haccess))
    intro entries hperm
    unfold FileSystemSandboxPolicy.canWritePathWithCwd
    rw [resolveAccess_reordered hperm]
    simp [haccess]

/-- A write entry, and one in the repository below it. -/
def nestedEntries : List FileSystemSandboxEntry :=
  [.new (.path [['a']]) .write, .new (.path [['a'], dotGit, ['b']]) .write]

/-- Below the inner entry's `.codex`, the outer entry allows what the inner one does not. -/
theorem not_orderIndependent_nested :
    ¬ OrderIndependent (.restricted nestedEntries) .empty [] [['a'], dotGit, ['b'], dotCodex, ['x']] := by
  intro h
  have hdenied : (FileSystemSandboxPolicy.restricted nestedEntries.reverse).canWritePathWithCwd .empty []
      [['a'], dotGit, ['b'], dotCodex, ['x']] = false := by decide
  have hsame := h nestedEntries.reverse (List.reverse_perm nestedEntries)
  exact Bool.false_ne_true (hdenied.symm.trans hsame)

end Codex.Permissions
