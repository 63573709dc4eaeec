/-
What deleting threads leaves of their forks. The reference index knows every edge
between rollouts (`baseOf_of_isFork`), so that a request that passes its check
names all forks of what it deletes (`fork_mem`); an attempt to delete a thread
removes all its rollouts or ends with an error, and none of another thread
(`deleteThreadAfterReferenceCheck_attempted`).
-/
import Codex.ThreadDeletion
import Mathlib.Data.List.Dedup

namespace Codex.Deletion

open Paging (ThreadId HistoryPosition)
open References

def HasRollout (home : Home) (threadId : ThreadId) : Prop := ∃ file ∈ home.files, file.path.id = threadId

/-- The rollout of a thread begins in the history of another. -/
def IsFork (home : Home) (child parent : ThreadId) : Prop :=
  ∃ file ∈ home.files, home.visible file ∧ file.path.id = child ∧
    ∃ sessionMeta ∈ file.sessionMeta, ∃ historyBase ∈ sessionMeta.historyBase, historyBase.threadId = parent

/-- The forks that are left have what they are forked from, if they had it before. -/
def StrandsNone (before after : Home) : Prop :=
  ∀ child parent, IsFork before child parent → HasRollout after child → HasRollout before parent → HasRollout after parent

/-! ## The reference index -/

/-- What the scan knows of the files it has seen: of each thread, what the first of its files says. -/
structure Scanned (files : List RolloutFile) (scanned : List ThreadId × List (ThreadId × HistoryPosition)) : Prop where
  nodup : (scanned.2.map Prod.fst).Nodup
  unseen : ∀ threadId ∉ scanned.1, OrderedTables.get scanned.2 threadId = none
  first : ∀ threadId ∈ scanned.1, ∃ file ∈ files, ∃ sessionMeta ∈ file.sessionMeta,
    sessionMeta.id = threadId ∧ OrderedTables.get scanned.2 threadId = sessionMeta.historyBase
  seen : ∀ file ∈ files, ∀ sessionMeta ∈ file.sessionMeta, sessionMeta.id ∈ scanned.1

variable {bases : List (ThreadId × HistoryPosition)}

theorem nodup_insertBase (h : (bases.map Prod.fst).Nodup)
    (sessionMeta : Paging.SessionMeta) : ((RolloutReferenceIndex.insertBase bases sessionMeta).map Prod.fst).Nodup := by
  unfold RolloutReferenceIndex.insertBase
  split
  · exact OrderedTables.nodup_insert h _ _
  · exact h

theorem get_insertBase {sessionMeta}
    (h : OrderedTables.get bases sessionMeta.id = none) (threadId : ThreadId) :
    OrderedTables.get (RolloutReferenceIndex.insertBase bases sessionMeta) threadId =
      if sessionMeta.id = threadId then sessionMeta.historyBase else OrderedTables.get bases threadId := by
  unfold RolloutReferenceIndex.insertBase
  split
  next historyBase hbase => rw [hbase, OrderedTables.get_insert]
  next hbase =>
    rw [hbase]
    split
    next heq => exact heq ▸ h
    next => rfl

variable {scanned : List ThreadId × List (ThreadId × HistoryPosition)}

theorem Scanned.more {files}
    (h : Scanned files scanned) (file : RolloutFile) (hseen : ∀ sessionMeta ∈ file.sessionMeta, sessionMeta.id ∈ scanned.1) :
    Scanned (files ++ [file]) scanned := by
  refine ⟨h.nodup, h.unseen, fun threadId hid => ?_, fun other hother => ?_⟩
  · obtain ⟨other, hother, hmeta⟩ := h.first threadId hid
    exact ⟨other, List.mem_append_left _ hother, hmeta⟩
  · rcases List.mem_append.1 hother with hother | hother
    · exact h.seen other hother
    · obtain rfl := List.mem_singleton.1 hother
      exact hseen

theorem Scanned.scanFile {files} (h : Scanned files scanned) (file : RolloutFile) :
    Scanned (files ++ [file]) (RolloutReferenceIndex.scanFile scanned file) := by
  unfold RolloutReferenceIndex.scanFile
  split
  next hnone => exact h.more file (by simp [hnone])
  next sessionMeta hmeta =>
    split
    next hseen =>
      refine h.more file fun other hother => ?_
      rw [Option.mem_def, hmeta, Option.some.injEq] at hother
      exact hother ▸ hseen
    next hunseen =>
      -- the first file of a thread says what is known of it from now on
      have hget := get_insertBase (h.unseen _ hunseen)
      refine ⟨nodup_insertBase h.nodup _, fun threadId hid => ?_, fun threadId hid => ?_,
        fun other hother otherMeta hotherMeta => ?_⟩
      · obtain ⟨hne, hid⟩ := not_or.1 (List.mem_cons.not.1 hid)
        rw [hget threadId, if_neg (Ne.symm hne)]
        exact h.unseen threadId hid
      · rw [hget]
        by_cases heq : sessionMeta.id = threadId
        · rw [if_pos heq]
          exact ⟨file, by simp, sessionMeta, hmeta, heq, rfl⟩
        · rw [if_neg heq]
          obtain ⟨other, hother, hfirst⟩ := h.first threadId ((List.mem_cons.1 hid).resolve_left (Ne.symm heq))
          exact ⟨other, List.mem_append_left _ hother, hfirst⟩
      · rcases List.mem_append.1 hother with hother | hother
        · exact List.mem_cons_of_mem _ (h.seen other hother otherMeta hotherMeta)
        · obtain rfl := List.mem_singleton.1 hother
          rw [Option.mem_def, hmeta, Option.some.injEq] at hotherMeta
          exact hotherMeta ▸ List.mem_cons_self ..

theorem scanned_foldl (files : List RolloutFile) : Scanned files (files.foldl RolloutReferenceIndex.scanFile ([], [])) := by
  induction files using List.reverseRecOn with
  | nil =>
    exact ⟨List.nodup_nil, fun _ _ => rfl, fun _ h => absurd h List.not_mem_nil, fun _ h => absurd h List.not_mem_nil⟩
  | append_singleton files file ih =>
    rw [List.foldl_append, List.foldl_cons, List.foldl_nil]
    exact ih.scanFile file

/-- What a thread is forked from, by the index. -/
def baseOf (home : Home) (threadId : ThreadId) : Option ThreadId :=
  ((RolloutReferenceIndex.scan home).historyBase threadId).map (·.threadId)

variable {home : Home} {file : RolloutFile}

theorem mem_discovered :
    file ∈ home.discovered .sessions ++ home.discovered .archivedSessions ↔ file ∈ home.files ∧ home.visible file := by
  rw [List.mem_append, Home.discovered, Home.discovered, List.mem_filter, List.mem_filter, ← and_or_left]
  cases file.path.subdir <;> simp

/-- **The index knows every edge.** -/
theorem baseOf_of_isFork {child parent} (h : IsFork home child parent) :
    baseOf home child = some parent := by
  obtain ⟨file, hfile, hvisible, rfl, sessionMeta, hmeta, historyBase, hbase, rfl⟩ := h
  have hscan := scanned_foldl (home.discovered .sessions ++ home.discovered .archivedSessions)
  have hid := home.named file hfile sessionMeta hmeta
  obtain ⟨other, hother, otherMeta, hotherMeta, hsame, hget⟩ :=
    hscan.first file.path.id (hid ▸ hscan.seen file (mem_discovered.2 ⟨hfile, hvisible⟩) sessionMeta hmeta)
  have hotherFile := (mem_discovered.1 hother).1
  have hcopy := home.copies other hotherFile file hfile ((home.named other hotherFile otherMeta hotherMeta).symm.trans hsame)
    otherMeta hotherMeta sessionMeta hmeta
  rw [baseOf, show (RolloutReferenceIndex.scan home).historyBase file.path.id = some historyBase from
    (hget.trans hcopy).trans hbase]
  rfl

theorem referenceCount_scan (home : Home) (threadId : ThreadId) : (RolloutReferenceIndex.scan home).referenceCount threadId =
    (referred (baseOf home) ((RolloutReferenceIndex.scan home).historyBaseByThread.map Prod.fst)).count threadId := by
  have hscan := scanned_foldl (home.discovered .sessions ++ home.discovered .archivedSessions)
  rw [show (RolloutReferenceIndex.scan home).referenceCount threadId = _ from get_tally _ _, referred, List.filterMap_map]
  refine congrArg (List.count threadId) (List.filterMap_congr fun entry hentry => ?_)
  have hget : (RolloutReferenceIndex.scan home).historyBase entry.1 = some entry.2 := OrderedTables.get_of_mem hscan.nodup hentry
  rw [Function.comp_apply, baseOf, hget, Option.map_some]
  by_cases hself : entry.2.threadId = entry.1
  · rw [if_pos hself, Option.filter_some_neg (by simpa using hself)]
  · rw [if_neg hself, Option.filter_some_pos (by simpa using hself)]

theorem internalReferenceCounts_scan (home : Home) {deletionSet threadId} (h : threadId ∈ deletionSet) :
    (OrderedTables.get (internalReferenceCounts (RolloutReferenceIndex.scan home) deletionSet) threadId).getD 0 =
      (referred (baseOf home) deletionSet).count threadId := by
  have hwithin : deletionSet.filterMap (internalReference (RolloutReferenceIndex.scan home) deletionSet) =
      (referred (baseOf home) deletionSet).filter (· ∈ deletionSet) := by
    rw [referred, List.filter_filterMap]
    refine List.filterMap_congr fun child _ => ?_
    rw [baseOf, internalReference]
    cases (RolloutReferenceIndex.scan home).historyBase child with
    | none => rfl
    | some historyBase =>
      by_cases hself : historyBase.threadId = child <;> by_cases hmem : historyBase.threadId ∈ deletionSet <;>
        simp [hself, hmem, Option.filter]
  rw [internalReferenceCounts, hwithin, get_tally, List.count_filter (by simpa using h)]

/-- **What passes the check names all forks** of what it deletes. -/
theorem fork_mem {threadIds}
    (h : referencedFromOutside (RolloutReferenceIndex.scan home) threadIds = none) {child parent}
    (hparent : parent ∈ threadIds) (hbase : baseOf home child = some parent) (hne : parent ≠ child) : child ∈ threadIds := by
  have hle := List.find?_eq_none.1 h parent hparent
  rw [decide_eq_true_iff, not_lt, internalReferenceCounts_scan home (List.mem_dedup.2 hparent), referenceCount_scan] at hle
  refine List.mem_dedup.1 (referrer_mem (List.nodup_dedup threadIds) (fun thing hthing => ?_) hle hbase hne)
  rw [baseOf, Option.isSome_map] at hthing
  exact OrderedTables.get_isSome_iff.1 hthing

/-! ## One thread -/

/-- Only rollouts of the thread are removed. -/
structure RemovedOf (threadId : ThreadId) (before after : Home) : Prop where
  subset : ∀ file ∈ after.files, file ∈ before.files
  others : ∀ file ∈ before.files, file.path.id ≠ threadId → file ∈ after.files

theorem RemovedOf.refl (threadId : ThreadId) (home : Home) : RemovedOf threadId home home :=
  ⟨fun _ h => h, fun _ h _ => h⟩

theorem RemovedOf.trans {threadId} {home₁ home₂ home₃ : Home} (h : RemovedOf threadId home₁ home₂)
    (h' : RemovedOf threadId home₂ home₃) : RemovedOf threadId home₁ home₃ :=
  ⟨fun file hfile => h.subset file (h'.subset file hfile), fun file hfile hne => h'.others file (h.others file hfile hne) hne⟩

/-- An error that says neither that a thread is missing nor that it is referenced. -/
def IsFailure (err : ThreadStoreError) : Prop :=
  ∀ threadId, err ≠ .threadNotFound threadId ∧ err ≠ referencedThreadError threadId

theorem isFailure_internal (message : String) : IsFailure (.internal message) :=
  fun _ => ⟨ThreadStoreError.noConfusion, ThreadStoreError.noConfusion⟩

theorem isFailure_invalidRequest {message} (h : message.toList.head? ≠ some 'c') :
    IsFailure (.invalidRequest message) := by
  refine fun threadId => ⟨ThreadStoreError.noConfusion, fun heq => h ?_⟩
  rw [referencedThreadError, ThreadStoreError.invalidRequest.injEq] at heq
  simp [heq]

section
variable (attempt : Attempt) (threadId : ThreadId)

/-- What comes of a part of a deletion: what it is for, or a failure. -/
structure Outcome {α : Type} (before : Home) (result : Home × Except ThreadStoreError α) (ok : Home → Prop) : Prop where
  removed : RemovedOf threadId before result.1
  ok : ∀ a, result.2 = .ok a → ok result.1
  error : ∀ err, result.2 = .error err → IsFailure err

variable {threadId} in
theorem Outcome.failed {α : Type} {before after : Home} {err : ThreadStoreError} {ok : Home → Prop}
    (hremoved : RemovedOf threadId before after) (herr : IsFailure err) :
    Outcome threadId before (after, (.error err : Except ThreadStoreError α)) ok :=
  ⟨hremoved, fun a h => absurd h (by simp), fun other h => Except.error.inj h ▸ herr⟩

variable {threadId} in
theorem Outcome.finished {α : Type} {before after : Home} {a : α} {ok : Home → Prop} (hremoved : RemovedOf threadId before after)
    (hok : ok after) : Outcome threadId before (after, (.ok a : Except ThreadStoreError α)) ok :=
  ⟨hremoved, fun _ _ => hok, fun err h => absurd h (by simp)⟩

theorem deleteRolloutPath_outcome (home : Home) (path : RolloutPath) :
    Outcome threadId home (deleteRolloutPath attempt threadId home path) fun after =>
      path.id = threadId ∧ ∀ file ∈ after.files, file.path ≠ path := by
  unfold deleteRolloutPath
  split
  next err _ =>
    refine .failed (.refl threadId home) ?_
    cases err with
    | root err => exact isFailure_internal _
    | path => exact isFailure_invalidRequest (by simp)
  next =>
    split
    next => exact .failed (.refl threadId home) (isFailure_invalidRequest (by simp))
    next hid =>
      split
      next => exact .failed (.refl threadId home) (isFailure_internal _)
      next =>
        refine .finished ⟨fun file hfile => List.mem_of_mem_filter hfile, fun file hfile hne => ?_⟩ ⟨not_not.1 hid, ?_⟩
        · refine List.mem_filter.2 ⟨hfile, decide_eq_true fun heq => hne ?_⟩
          rw [heq]
          exact not_not.1 hid
        · intro file hfile
          exact of_decide_eq_true (List.mem_filter.1 hfile).2

theorem deleteRolloutFile_outcome (home : Home) (path : RolloutPath) :
    Outcome threadId home (deleteRolloutFile attempt threadId home path) fun after =>
      path.id = threadId ∧ ∀ file ∈ after.files, file.path.plain ≠ path.plain := by
  have hplain := deleteRolloutPath_outcome attempt threadId home path.plain
  unfold deleteRolloutFile
  split
  next home₁ err heq =>
    rw [heq] at hplain
    exact .failed hplain.removed (hplain.error err rfl)
  next home₁ deletedPlain heq =>
    rw [heq] at hplain
    have hzst := deleteRolloutPath_outcome attempt threadId home₁ path.plain.zst
    split
    next home₂ err heq' =>
      rw [heq'] at hzst
      exact .failed (hplain.removed.trans hzst.removed) (hzst.error err rfl)
    next home₂ deletedCompressed heq' =>
      rw [heq'] at hzst
      refine .finished (hplain.removed.trans hzst.removed) ⟨(hplain.ok _ rfl).1, fun file hfile hsame => ?_⟩
      -- a file of this rollout is the plain one or the compressed one
      cases hcompressed : file.path.compressed with
      | false =>
        refine (hplain.ok _ rfl).2 file (hzst.removed.subset file hfile) (Eq.trans ?_ hsame)
        rw [RolloutPath.plain, ← hcompressed]
      | true =>
        refine (hzst.ok _ rfl).2 file hfile (Eq.trans ?_ (congrArg RolloutPath.zst hsame))
        rw [RolloutPath.zst, RolloutPath.plain, ← hcompressed]

theorem deleteRolloutFiles_outcome (home : Home) (paths : List RolloutPath) :
    Outcome threadId home (deleteRolloutFiles attempt threadId home paths) fun after =>
      ∀ path ∈ paths, path.id = threadId ∧ ∀ file ∈ after.files, file.path.plain ≠ path.plain := by
  induction paths generalizing home with
  | nil => exact .finished (.refl threadId home) fun path h => absurd h List.not_mem_nil
  | cons path paths ih =>
    have hfile := deleteRolloutFile_outcome attempt threadId home path
    unfold deleteRolloutFiles
    split
    next home₁ err heq =>
      rw [heq] at hfile
      exact .failed hfile.removed (hfile.error err rfl)
    next home₁ deleted heq =>
      rw [heq] at hfile
      have hrest := ih home₁
      refine ⟨hfile.removed.trans hrest.removed, fun a h => List.forall_mem_cons.2 ⟨?_, hrest.ok a h⟩, hrest.error⟩
      exact ⟨(hfile.ok _ rfl).1, fun file hmem => (hfile.ok _ rfl).2 file (hrest.removed.subset file hmem)⟩

theorem mem_of_existingRolloutPath {path}
    (h : home.existingRolloutPath path = some file) : file ∈ home.files ∧ file.path.subdir = path.subdir := by
  rcases Option.or_eq_some_iff.1 h with h | ⟨-, h⟩
  · have hpath : file.path = path.plain := by simpa using List.find?_some h
    exact ⟨List.mem_of_find?_eq_some h, by rw [hpath]; rfl⟩
  · have hpath : file.path = path.plain.zst := by simpa using List.find?_some h
    exact ⟨List.mem_of_find?_eq_some h, by rw [hpath]; rfl⟩

/-- A rollout that is there is discovered, by its plain file if there is one. -/
theorem exists_discovered (h : file ∈ home.files) :
    ∃ other ∈ home.discovered file.path.subdir, other.path.id = file.path.id := by
  by_cases hvisible : home.visible file
  · exact ⟨file, List.mem_filter.2 ⟨h, by simp [hvisible]⟩, rfl⟩
  · rw [Home.visible, Bool.or_eq_true, not_or, Bool.not_eq_true', Bool.not_eq_true', Bool.not_eq_false, Bool.not_eq_false,
      List.any_eq_true] at hvisible
    obtain ⟨-, other, hother, hpath⟩ := hvisible
    have hplain := of_decide_eq_true hpath
    refine ⟨other, List.mem_filter.2 ⟨hother, ?_⟩, by rw [hplain]; rfl⟩
    rw [Home.visible, hplain]
    simp [RolloutPath.plain]

/-- A search that does not fail finds a file of the subdirectory, and some file if there is one of the thread. -/
structure Finds (home : Home) (subdir : Subdir) (found : Option RolloutPath) : Prop where
  file : ∀ path ∈ found, ∃ file ∈ home.files, file.path = path ∧ path.subdir = subdir
  complete : found = none → ∀ file ∈ home.files, file.path.subdir = subdir → file.path.id ≠ threadId

theorem searchRollouts_finds {subdir unverifiedDbPath found}
    (hdb : ∀ path ∈ unverifiedDbPath, ∃ file ∈ home.files, file.path = path ∧ path.subdir = subdir)
    (h : searchRollouts attempt threadId home subdir unverifiedDbPath = .ok found) : Finds threadId home subdir found := by
  unfold searchRollouts at h
  extract_lets filenameMatch searched at h
  generalize hmatch : filenameMatch = matched at h
  split at h
  next file =>
    obtain rfl := Except.ok.inj h
    have hfile : file ∈ home.discovered subdir := by
      cases hscan : attempt.scanError subdir with
      | none =>
        simp only [filenameMatch, hscan] at hmatch
        exact List.mem_of_find?_eq_some hmatch
      | some err => simp [filenameMatch, hscan] at hmatch
    obtain ⟨hmem, hin⟩ := List.mem_filter.1 hfile
    refine ⟨fun path hpath => ⟨file, hmem, Option.some.inj hpath, ?_⟩, fun hnone => by cases hnone⟩
    rw [← Option.some.inj hpath]
    exact of_decide_eq_true (Bool.and_eq_true_iff.1 hin).1
  next =>
    split at h
    next => cases h
    next =>
      generalize hsearched : searched = searchedFile at h
      split at h
      next => cases h
      next hsome =>
        obtain rfl := Except.ok.inj h
        constructor
        · intro path hpath
          rcases Option.or_eq_some_iff.1 hpath with hpath | ⟨-, hpath⟩
          · obtain ⟨file, hfile, rfl⟩ := Option.map_eq_some_iff.1 hpath
            have hfind := (Option.filter_eq_some_iff.1 (hsearched.trans hfile)).1
            have htest := List.find?_some hfind
            exact ⟨file, List.mem_of_find?_eq_some hfind, rfl, (of_decide_eq_true htest).1⟩
          · exact hdb path hpath
        · intro hnone file hfile hsubdir hid
          have hnothing := Option.map_eq_none_iff.1 (Option.or_eq_none_iff.1 hnone).1
          -- the walk has not failed, or there would be an error
          have hscan : attempt.scanError subdir = none := by
            cases hscan : attempt.scanError subdir with
            | none => rfl
            | some err => exact absurd hscan (hsome err hnothing)
          simp only [filenameMatch, hscan, List.find?_eq_none] at hmatch
          obtain ⟨other, hother, hsame⟩ := exists_discovered hfile
          rw [hsubdir] at hother
          exact hmatch other hother (decide_eq_true (hsame.trans hid))

theorem findThreadPathByIdStrInSubdir_finds {subdir found}
    (h : findThreadPathByIdStrInSubdir attempt threadId home subdir = .ok found) : Finds threadId home subdir found := by
  unfold findThreadPathByIdStrInSubdir at h
  split at h
  next => exact searchRollouts_finds attempt threadId (fun path hpath => by cases hpath) h
  next file hfile =>
    obtain ⟨dbPath, hdbPath, hexisting⟩ := Option.bind_eq_some_iff.1 hfile
    obtain ⟨hmem, hsubdir⟩ := mem_of_existingRolloutPath hexisting
    have hverified : ∀ path ∈ some file.path, ∃ file ∈ home.files, file.path = path ∧ path.subdir = subdir := by
      intro path hpath
      obtain rfl := Option.some.inj hpath
      exact ⟨file, hmem, rfl, hsubdir.trans (attempt.stateDb_subdir subdir dbPath hdbPath)⟩
    split at h
    next => exact searchRollouts_finds attempt threadId hverified h
    next =>
      split at h
      next =>
        obtain rfl := Except.ok.inj h
        exact ⟨hverified, fun hnone => by cases hnone⟩
      next => exact searchRollouts_finds attempt threadId (fun path hpath => by cases hpath) h

variable {threadId} in
/-- What a search has found is the only rollout of the thread in that subdirectory. -/
theorem Finds.gone {home after : Home} {subdir : Subdir} {found : Option RolloutPath} (h : Finds threadId home subdir found)
    (hremoved : RemovedOf threadId home after)
    (hgone : ∀ path ∈ found, path.id = threadId ∧ ∀ file ∈ after.files, file.path.plain ≠ path.plain) :
    ∀ file ∈ after.files, file.path.subdir = subdir → file.path.id ≠ threadId := by
  intro file hfile hsubdir hid
  have hbefore := hremoved.subset file hfile
  cases found with
  | none => exact h.complete rfl file hbefore hsubdir hid
  | some path =>
    obtain ⟨other, hother, rfl, hin⟩ := h.file path rfl
    obtain ⟨hsame, hnone⟩ := hgone other.path rfl
    have hstem := home.single file hbefore other hother (hid.trans hsame.symm) (hsubdir.trans hin.symm)
    refine hnone file hfile ?_
    rw [RolloutPath.plain, RolloutPath.plain, RolloutPath.mk.injEq]
    exact ⟨hsubdir.trans hin.symm, hstem, hid.trans hsame.symm, rfl⟩

/-- What comes of an attempt to delete a thread. -/
structure Attempted (before : Home) (result : Home × Except ThreadStoreError Unit) : Prop where
  removed : RemovedOf threadId before result.1
  unreferenced : ∀ referenced, result.2 ≠ .error (referencedThreadError referenced)
  gone : result.2 = .ok () ∨ (∃ missing, result.2 = .error (.threadNotFound missing)) → ¬ HasRollout result.1 threadId

variable {threadId} in
theorem Attempted.failed {before after : Home} {err : ThreadStoreError} (hremoved : RemovedOf threadId before after)
    (herr : IsFailure err) : Attempted threadId before (after, .error err) := by
  refine ⟨hremoved, fun referenced h => (herr referenced).2 (Except.error.inj h), ?_⟩
  rintro (h | ⟨missing, h⟩)
  · cases h
  · exact absurd (Except.error.inj h) (herr missing).1

/-- **An attempt removes all rollouts of its thread**, unless it fails, and then some of them. -/
theorem deleteThreadAfterReferenceCheck_attempted (home : Home) :
    Attempted threadId home (deleteThreadAfterReferenceCheck attempt threadId home) := by
  unfold deleteThreadAfterReferenceCheck
  split
  next => exact .failed (.refl threadId home) (isFailure_invalidRequest (by simp))
  next path hpath =>
    have hactive := findThreadPathByIdStrInSubdir_finds attempt threadId hpath
    split
    next => exact .failed (.refl threadId home) (isFailure_invalidRequest (by simp))
    next archivedPath harchivedPath =>
      have harchived := findThreadPathByIdStrInSubdir_finds attempt threadId harchivedPath
      extract_lets rolloutPaths
      have hpaths : ∀ found, found ∈ path ∨ found ∈ archivedPath → found ∈ rolloutPaths := by
        intro found hfound
        by_cases hboth : found ∈ path
        · exact List.mem_append_left _ (Option.mem_toList.2 hboth)
        · have hfilter : archivedPath.filter (fun archivedPath => archivedPath ∉ path.toList) = some found :=
            Option.filter_eq_some_iff.2 ⟨hfound.resolve_left hboth, decide_eq_true (mt Option.mem_toList.1 hboth)⟩
          exact List.mem_append_right _ (Option.mem_toList.2 hfilter)
      have hfiles := deleteRolloutFiles_outcome attempt threadId home rolloutPaths
      split
      next home₁ err heq =>
        rw [heq] at hfiles
        exact .failed hfiles.removed (hfiles.error err rfl)
      next home₁ heq =>
        rw [heq] at hfiles
        have hgone := hfiles.ok () rfl
        have hnone : ¬ HasRollout home₁ threadId := by
          rintro ⟨file, hfile, hid⟩
          have hsessions := hactive.gone hfiles.removed fun path hpath => hgone path (hpaths path (.inl hpath))
          have harchivedSessions := harchived.gone hfiles.removed fun path hpath => hgone path (hpaths path (.inr hpath))
          cases hsubdir : file.path.subdir with
          | sessions => exact hsessions file hfile hsubdir hid
          | archivedSessions => exact harchivedSessions file hfile hsubdir hid
        split
        next => exact .failed hfiles.removed (isFailure_internal _)
        next =>
          split
          next => exact .failed hfiles.removed (isFailure_internal _)
          next =>
            split
            next =>
              exact ⟨hfiles.removed, fun referenced h => absurd (Except.error.inj h) ThreadStoreError.noConfusion,
                fun _ => hnone⟩
            next => exact ⟨hfiles.removed, fun referenced h => absurd h (by simp), fun _ => hnone⟩

end

/-! ## Many threads -/

/-- How far a request has come. -/
structure Progress (home : Home) (threadIds done : List ThreadId) (current : Option ThreadId) (rest : List ThreadId)
    (result : Home × Except ThreadStoreError Unit) : Prop where
  split : threadIds = done ++ current.toList ++ rest
  subset : ∀ file ∈ result.1.files, file ∈ home.files
  deleted : Deleted (HasRollout home) (HasRollout result.1) done current
  finished : result.2 = .ok () → current.toList ++ rest = []
  unreferenced : ∀ referenced, result.2 ≠ .error (referencedThreadError referenced)

theorem Progress.attempted {home₁ : Home} {threadId threadIds done rest current result} (hremoved : RemovedOf threadId home home₁)
    (hgone : ¬ HasRollout home₁ threadId) (h : Progress home₁ threadIds done current rest result) :
    Progress home (threadId :: threadIds) (threadId :: done) current rest result := by
  refine ⟨by rw [h.split]; rfl, fun file hfile => hremoved.subset file (h.subset file hfile), ⟨?_, ?_⟩, h.finished,
    h.unreferenced⟩
  · refine List.forall_mem_cons.2 ⟨?_, h.deleted.gone⟩
    rintro ⟨file, hfile, hid⟩
    exact hgone ⟨file, h.subset file hfile, hid⟩
  · rintro thing ⟨file, hfile, hid⟩ hdone hcurrent
    obtain ⟨hne, hdone⟩ := not_or.1 (List.mem_cons.not.1 hdone)
    exact h.deleted.kept thing ⟨file, hremoved.others file hfile (hid ▸ hne), hid⟩ hdone hcurrent

/-- **A request deletes its threads in turn**, up to one whose attempt fails. -/
theorem deleteLoop_progress (home : Home) (attempts : Nat → Attempt) (threadIds : List ThreadId) :
    ∃ done current rest, Progress home threadIds done current rest (deleteLoop home attempts threadIds) := by
  induction threadIds generalizing home attempts with
  | nil =>
    exact ⟨[], none, [], rfl, fun _ h => h, ⟨fun _ h => absurd h List.not_mem_nil, fun _ h _ _ => h⟩, fun _ => rfl,
      fun referenced h => absurd h (by simp [deleteLoop])⟩
  | cons threadId threadIds ih =>
    have hattempt := deleteThreadAfterReferenceCheck_attempted (attempts 0) threadId home
    unfold deleteLoop
    split
    next home₁ heq =>
      rw [heq] at hattempt
      obtain ⟨done, current, rest, hprogress⟩ := ih home₁ fun i => attempts (i + 1)
      exact ⟨threadId :: done, current, rest, hprogress.attempted hattempt.removed (hattempt.gone (.inl rfl))⟩
    next home₁ missing heq =>
      rw [heq] at hattempt
      obtain ⟨done, current, rest, hprogress⟩ := ih home₁ fun i => attempts (i + 1)
      exact ⟨threadId :: done, current, rest, hprogress.attempted hattempt.removed (hattempt.gone (.inr ⟨missing, rfl⟩))⟩
    next home₁ err _ heq =>
      rw [heq] at hattempt
      refine ⟨[], some threadId, threadIds, rfl, hattempt.removed.subset, ⟨fun _ h => absurd h List.not_mem_nil, ?_⟩,
        fun h => absurd h (by simp), hattempt.unreferenced⟩
      rintro thing ⟨file, hfile, hid⟩ - hcurrent
      exact ⟨file, hattempt.removed.others file hfile fun heq' => hcurrent (congrArg some (heq'.symm.trans hid)), hid⟩

/-- Each thread of a request is named after the threads of the request that are forked from it. -/
def ForksFirst (home : Home) (threadIds : List ThreadId) : Prop := ReferrersFirst (baseOf home) threadIds

/-- **Deletion strands no fork** when it succeeds, and when it fails if forks are named first; one that is refused
deletes nothing. -/
theorem deleteThreads_strandsNone (home : Home) (threadIds : List ThreadId) (scanError : Option String)
    (attempts : Nat → Attempt) :
    (∀ referenced, (deleteThreads home threadIds scanError attempts).2 = .error (referencedThreadError referenced) →
        (deleteThreads home threadIds scanError attempts).1 = home) ∧
      ((deleteThreads home threadIds scanError attempts).2 = .ok () ∨ ForksFirst home threadIds →
        StrandsNone home (deleteThreads home threadIds scanError attempts).1) := by
  have hsame : StrandsNone home home := fun _ _ _ _ hparent => hparent
  unfold deleteThreads
  split
  next => exact ⟨fun _ _ => rfl, fun _ => hsame⟩
  next =>
    split
    next => exact ⟨fun _ _ => rfl, fun _ => hsame⟩
    next =>
      split
      next => exact ⟨fun _ _ => rfl, fun _ => hsame⟩
      next hcheck =>
        obtain ⟨done, current, rest, hprogress⟩ := deleteLoop_progress home attempts threadIds
        refine ⟨fun referenced h => absurd h (hprogress.unreferenced referenced), ?_⟩
        intro hend child parent hfork hchild hparent
        have hclosed : ∀ target ∈ done ++ current.toList ++ rest, ∀ thing, baseOf home thing = some target → target ≠ thing →
            thing ∈ done ++ current.toList ++ rest := by
          intro target htarget thing hbase hne
          rw [← hprogress.split] at htarget ⊢
          exact fork_mem hcheck htarget hbase hne
        have hend' : current.toList ++ rest = [] ∨ ReferrersFirst (baseOf home) (done ++ current.toList ++ rest) := by
          rw [← hprogress.split]
          exact hend.imp_left hprogress.finished
        exact hprogress.deleted.strands_none hclosed hend' (baseOf_of_isFork hfork) hchild hparent

/-! ## A thread and its fork -/

def sourceFile : RolloutFile where
  path := { subdir := .sessions, stem := "2025/01/03/rollout-2025-01-03T12-00-00", id := "p", compressed := false }
  sessionMeta := some { id := "p", historyMode := .paginated, historyBase := none }

def forkFile : RolloutFile where
  path := { subdir := .sessions, stem := "2025/01/03/rollout-2025-01-03T12-00-01", id := "c", compressed := false }
  sessionMeta := some
    { id := "c", historyMode := .paginated
      historyBase := some { threadId := "p", endOrdinalExclusive := 1, endByteOffset := 9 } }

def forkHome : Home where
  files := [sourceFile, forkFile]
  named := by decide
  single := by decide
  copies := by decide

/-- The file of the fork cannot be removed. -/
def busyFork : Attempt where
  removeError path := if path.id = "c" then some "resource busy" else none

theorem isFork_forkHome : IsFork forkHome "c" "p" :=
  ⟨forkFile, by decide, by decide, rfl, _, rfl, _, rfl, rfl⟩

theorem forksFirst_forkHome : ForksFirst forkHome ["c", "p"] := by
  intro earlier target later hsplit _ thing hthing hbase hne
  rcases List.mem_cons.1 hthing with rfl | hthing
  · cases earlier with
    | nil =>
      obtain rfl := (List.cons.inj hsplit).1
      exact absurd rfl hne
    | cons first earlier => exact (List.cons.inj hsplit).1 ▸ List.mem_cons_self ..
  · obtain rfl := List.mem_singleton.1 hthing
    cases hbase

theorem deleteThreads_strandsNone_forkFirst :
    (deleteThreads forkHome ["p"] none fun _ => {}).1 = forkHome ∧
      StrandsNone forkHome (deleteThreads forkHome ["c", "p"] none fun _ => busyFork).1 :=
  ⟨(deleteThreads_strandsNone forkHome ["p"] none fun _ => {}).1 "p" (by decide),
    (deleteThreads_strandsNone forkHome ["c", "p"] none fun _ => busyFork).2 (.inr forksFirst_forkHome)⟩

/-- The source is named first and is gone when its fork turns out to be busy. -/
theorem not_strandsNone_sourceFirst : ¬ StrandsNone forkHome (deleteThreads forkHome ["p", "c"] none fun _ => busyFork).1 := by
  intro h
  have hfiles : (deleteThreads forkHome ["p", "c"] none fun _ => busyFork).1.files = [forkFile] := by decide
  obtain ⟨file, hfile, hid⟩ := h "c" "p" isFork_forkHome ⟨forkFile, by rw [hfiles]; exact List.mem_singleton_self _, rfl⟩
    ⟨sourceFile, by decide, rfl⟩
  obtain rfl := List.mem_singleton.1 hfile
  exact absurd hid (by decide)

end Codex.Deletion
