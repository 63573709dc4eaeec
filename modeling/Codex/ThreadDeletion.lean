/-
Deleting threads from the local store: `delete_threads`
(`thread-store/src/local/delete_thread.rs`) counts the references between the
rollouts (`rollout/src/rollout_reference_index.rs`), refuses to delete what others
are forked from, and deletes the rollouts of one thread after the other.

The home directory is its rollout files in the order of a directory walk. What a
deletion meets besides, the rows of the state database, the results of the fuzzy
file search and everything that may fail, is its `Attempt`. Live writers, the name
index and the history rows are left out, up to their errors.
-/
import Codex.Lib.References
import Codex.SegmentPaging

namespace Codex.Deletion

open Paging (ThreadId HistoryPosition)

inductive ThreadStoreError where
  | threadNotFound (threadId : ThreadId)
  | invalidRequest (message : String)
  | internal (message : String)
  deriving DecidableEq

/-! ## Rollout files -/

inductive Subdir where
  | sessions
  | archivedSessions
  deriving DecidableEq

/-- `<subdir>/<stem>-<id>.jsonl`, or `.jsonl.zst`. -/
structure RolloutPath where
  subdir : Subdir
  stem : String
  id : ThreadId
  compressed : Bool
  deriving DecidableEq

namespace RolloutPath

/-- `plain_rollout_path` -/
def plain (path : RolloutPath) : RolloutPath := { path with compressed := false }

/-- `with_extension("jsonl.zst")` of the plain path -/
def zst (path : RolloutPath) : RolloutPath := { path with compressed := true }

def display (path : RolloutPath) : String :=
  (match path.subdir with
    | .sessions => "sessions/"
    | .archivedSessions => "archived_sessions/") ++
    path.stem ++ "-" ++ path.id ++ ".jsonl" ++ if path.compressed then ".zst" else ""

end RolloutPath

/-- A file; reading its session metadata may fail. -/
structure RolloutFile where
  path : RolloutPath
  sessionMeta : Option Paging.SessionMeta
  deriving DecidableEq

/-- The home directory. In each subdirectory a thread has one rollout at most, plain, compressed or both, and all
its rollouts begin at the same place of another thread's history. -/
structure Home where
  files : List RolloutFile
  named : ∀ file ∈ files, ∀ sessionMeta ∈ file.sessionMeta, sessionMeta.id = file.path.id
  single : ∀ file ∈ files, ∀ other ∈ files, file.path.id = other.path.id → file.path.subdir = other.path.subdir →
    file.path.stem = other.path.stem
  copies : ∀ file ∈ files, ∀ other ∈ files, file.path.id = other.path.id → ∀ sessionMeta ∈ file.sessionMeta,
    ∀ otherMeta ∈ other.sessionMeta, sessionMeta.historyBase = otherMeta.historyBase

namespace Home

variable (home : Home)

def removeFile (path : RolloutPath) : Home where
  files := home.files.filter fun file => file.path ≠ path
  named file hfile := home.named file (List.mem_of_mem_filter hfile)
  single file hfile other hother := home.single file (List.mem_of_mem_filter hfile) other (List.mem_of_mem_filter hother)
  copies file hfile other hother := home.copies file (List.mem_of_mem_filter hfile) other (List.mem_of_mem_filter hother)

/-- `RolloutFile::from_path` hides a compressed file next to the plain one. -/
def visible (file : RolloutFile) : Bool := !file.path.compressed || !home.files.any fun other => other.path = file.path.plain

/-- What a walk of a subdirectory discovers. -/
def discovered (subdir : Subdir) : List RolloutFile :=
  home.files.filter fun file => file.path.subdir = subdir && home.visible file

def existingRolloutPath (path : RolloutPath) : Option RolloutFile :=
  (home.files.find? (·.path = path.plain)).or (home.files.find? (·.path = path.plain.zst))

end Home

/-! ## References -/

structure RolloutReferenceIndex where
  historyBaseByThread : List (ThreadId × HistoryPosition)
  referenceCountsByThread : List (ThreadId × Nat)

namespace RolloutReferenceIndex

def historyBase (index : RolloutReferenceIndex) (threadId : ThreadId) : Option HistoryPosition :=
  OrderedTables.get index.historyBaseByThread threadId

def referenceCount (index : RolloutReferenceIndex) (threadId : ThreadId) : Nat :=
  (OrderedTables.get index.referenceCountsByThread threadId).getD 0

def insertBase (historyBaseByThread : List (ThreadId × HistoryPosition)) (sessionMeta : Paging.SessionMeta) :
    List (ThreadId × HistoryPosition) :=
  match sessionMeta.historyBase with
  | some historyBase => OrderedTables.insert historyBaseByThread sessionMeta.id historyBase
  | none => historyBaseByThread

/-- One file of the scan, with the ids of the threads before it. -/
def scanFile (scanned : List ThreadId × List (ThreadId × HistoryPosition)) (file : RolloutFile) :
    List ThreadId × List (ThreadId × HistoryPosition) :=
  match file.sessionMeta with
  | none => scanned
  | some sessionMeta =>
    if sessionMeta.id ∈ scanned.1 then scanned
    else (sessionMeta.id :: scanned.1, insertBase scanned.2 sessionMeta)

/-- The subdirectory pushed last is the first to be walked. -/
def scan (home : Home) : RolloutReferenceIndex :=
  let historyBaseByThread := ((home.discovered .sessions ++ home.discovered .archivedSessions).foldl scanFile ([], [])).2
  { historyBaseByThread
    referenceCountsByThread := References.tally (historyBaseByThread.filterMap fun entry =>
      if entry.2.threadId = entry.1 then none else some entry.2.threadId) }

end RolloutReferenceIndex

/-! ## One thread -/

/-- A file that cannot be resolved: the subdirectory cannot, or the file cannot. -/
inductive ResolveError where
  | root (err : String)
  | path

/-- What the deletion of a thread meets. A row of the state database has a path in the subdirectory that its
archived flag says. -/
structure Attempt where
  stateDb : Subdir → Option RolloutPath := fun _ => none
  scanError : Subdir → Option String := fun _ => none
  searchError : Subdir → Option String := fun _ => none
  searchMatch : RolloutPath → Bool := fun _ => false
  resolveError : RolloutPath → Option ResolveError := fun _ => none
  removeError : RolloutPath → Option String := fun _ => none
  namesError : Option String := none
  historyError : Option String := none
  stateDb_subdir : ∀ subdir, ∀ path ∈ stateDb subdir, path.subdir = subdir := by simp

section
variable (attempt : Attempt) (threadId : ThreadId)

/-- The rest of `find_thread_path_by_id_str_in_subdir`, when the database has no path that is the thread's. -/
def searchRollouts (home : Home) (subdir : Subdir) (unverifiedDbPath : Option RolloutPath) : Except String (Option RolloutPath) :=
  let filenameMatch : Option RolloutFile := match attempt.scanError subdir with
    | some _ => none
    | none => (home.discovered subdir).find? (·.path.id = threadId)
  match filenameMatch with
  | some file => .ok (some file.path)
  | none => match attempt.searchError subdir with
    | some err => .error ("file search failed: " ++ err)
    | none =>
      let found : Option RolloutFile :=
        (home.files.find? fun file => file.path.subdir = subdir ∧ attempt.searchMatch file.path).filter home.visible
      match found, attempt.scanError subdir with
      | none, some err => .error err
      | found, _ => .ok ((found.map (·.path)).or unverifiedDbPath)

def findThreadPathByIdStrInSubdir (home : Home) (subdir : Subdir) : Except String (Option RolloutPath) :=
  match (attempt.stateDb subdir).bind home.existingRolloutPath with
  | none => searchRollouts attempt threadId home subdir none
  | some file => match file.sessionMeta with
    | none => searchRollouts attempt threadId home subdir (some file.path)
    | some sessionMeta =>
      if sessionMeta.id = threadId then .ok (some file.path) else searchRollouts attempt threadId home subdir none

/-- `scoped_rollout_path`, for the archived sessions, tried last. -/
def resolveErrorOf (path : RolloutPath) : ResolveError → ThreadStoreError
  | .root err => .internal ("failed to resolve archived sessions directory: " ++ err)
  | .path => .invalidRequest ("rollout path `" ++ path.display ++ "` must be in archived sessions directory")

/-- A file that is not there is as good as deleted. -/
def deleteRolloutPath (home : Home) (path : RolloutPath) : Home × Except ThreadStoreError Bool :=
  match attempt.resolveError path with
  | some err => (home, .error (resolveErrorOf path err))
  | none =>
    if path.id ≠ threadId then
      (home, .error (.invalidRequest ("rollout path `" ++ path.display ++ "` does not match thread id " ++ threadId)))
    else match attempt.removeError path with
      | some err => (home, .error (.internal ("failed to delete rollout file `" ++ path.display ++ "`: " ++ err)))
      | none => (home.removeFile path, .ok (home.files.any (·.path = path)))

def deleteRolloutFile (home : Home) (path : RolloutPath) : Home × Except ThreadStoreError Bool :=
  match deleteRolloutPath attempt threadId home path.plain with
  | (home, .error err) => (home, .error err)
  | (home, .ok deletedPlain) => match deleteRolloutPath attempt threadId home path.plain.zst with
    | (home, .error err) => (home, .error err)
    | (home, .ok deletedCompressed) => (home, .ok (deletedPlain || deletedCompressed))

def deleteRolloutFiles (home : Home) : List RolloutPath → Home × Except ThreadStoreError Unit
  | [] => (home, .ok ())
  | path :: paths => match deleteRolloutFile attempt threadId home path with
    | (home, .error err) => (home, .error err)
    | (home, .ok _) => deleteRolloutFiles home paths

def deleteThreadAfterReferenceCheck (home : Home) : Home × Except ThreadStoreError Unit :=
  match findThreadPathByIdStrInSubdir attempt threadId home .sessions with
  | .error err => (home, .error (.invalidRequest ("failed to locate thread id " ++ threadId ++ ": " ++ err)))
  | .ok path => match findThreadPathByIdStrInSubdir attempt threadId home .archivedSessions with
    | .error err => (home, .error (.invalidRequest ("failed to locate archived thread id " ++ threadId ++ ": " ++ err)))
    | .ok archivedPath =>
      let rolloutPaths := path.toList ++ (archivedPath.filter fun archivedPath => archivedPath ∉ path.toList).toList
      match deleteRolloutFiles attempt threadId home rolloutPaths with
      | (home, .error err) => (home, .error err)
      | (home, .ok ()) => match attempt.namesError with
        | some err =>
          (home, .error (.internal ("failed to delete thread name index entries for " ++ threadId ++ ": " ++ err)))
        | none => match attempt.historyError with
          | some err => (home, .error (.internal err))
          | none => if rolloutPaths.isEmpty then (home, .error (.threadNotFound threadId)) else (home, .ok ())

end

/-! ## Many threads -/

def referencedThreadError (threadId : ThreadId) : ThreadStoreError :=
  .invalidRequest ("cannot delete thread " ++ threadId ++ ": forked history still references it")

/-- What a thread of the request is forked from, if that is in the request too. -/
def internalReference (index : RolloutReferenceIndex) (deletionSet : List ThreadId) (childThreadId : ThreadId) :
    Option ThreadId :=
  match index.historyBase childThreadId with
  | none => none
  | some historyBase =>
    if historyBase.threadId ≠ childThreadId ∧ historyBase.threadId ∈ deletionSet then some historyBase.threadId else none

def internalReferenceCounts (index : RolloutReferenceIndex) (deletionSet : List ThreadId) : List (ThreadId × Nat) :=
  References.tally (deletionSet.filterMap (internalReference index deletionSet))

/-- The first thread of the request that others refer to as well. -/
def referencedFromOutside (index : RolloutReferenceIndex) (threadIds : List ThreadId) : Option ThreadId :=
  let counts := internalReferenceCounts index threadIds.dedup
  threadIds.find? fun threadId => index.referenceCount threadId > (OrderedTables.get counts threadId).getD 0

/-- The threads are deleted in the order they are given, each with an attempt of its own. -/
def deleteLoop (home : Home) (attempts : Nat → Attempt) : List ThreadId → Home × Except ThreadStoreError Unit
  | [] => (home, .ok ())
  | threadId :: threadIds => match deleteThreadAfterReferenceCheck (attempts 0) threadId home with
    | (home, .ok ()) => deleteLoop home (fun i => attempts (i + 1)) threadIds
    | (home, .error (.threadNotFound _)) => deleteLoop home (fun i => attempts (i + 1)) threadIds
    | (home, .error err) => (home, .error err)

def deleteThreads (home : Home) (threadIds : List ThreadId) (scanError : Option String) (attempts : Nat → Attempt) :
    Home × Except ThreadStoreError Unit :=
  if threadIds.isEmpty then (home, .ok ())
  else match scanError with
    | some err => (home, .error (.internal ("failed to scan fork history references: " ++ err)))
    | none => match referencedFromOutside (RolloutReferenceIndex.scan home) threadIds with
      | some threadId => (home, .error (referencedThreadError threadId))
      | none => deleteLoop home attempts threadIds

end Codex.Deletion
