/-
The stage-1 memory jobs (`state/src/runtime/memories.rs`): a `jobs` table keyed
by kind and job key, and a `stage1_outputs` table keyed by thread. A worker
claims a thread's job by one conditional upsert and completes it by an update
guarded by the claim's ownership token. Each function is one transaction, so a
run of any number of workers is a list of calls, each with the clock it reads.

The claims of a run all use one `max_running_jobs`. Of the outputs, the columns
the calls below neither read nor write are left out.
-/
import Codex.Text
import Mathlib.Data.List.AList
import Mathlib.Tactic.Linarith

namespace Codex.Memories

/-! ## Tables -/

inductive JobKind where
  | memoryStage1
  | memoryConsolidateGlobal
  deriving DecidableEq, Repr

inductive JobStatus where
  | pending
  | running
  | done
  | error
  deriving DecidableEq, Repr

structure Job where
  status : JobStatus
  workerId : Option Text
  ownershipToken : Option Text
  startedAt : Option Int
  finishedAt : Option Int
  leaseUntil : Option Int
  retryAt : Option Int
  retryRemaining : Int
  lastError : Option Text
  inputWatermark : Option Int
  lastSuccessWatermark : Option Int
  deriving DecidableEq, Repr

structure Stage1Output where
  sourceUpdatedAt : Int
  rawMemory : Text
  rolloutSummary : Text
  rolloutSlug : Option Text
  generatedAt : Int
  selectedForPhase2 : Bool
  deriving DecidableEq, Repr

structure MemoryDb where
  jobs : AList fun _ : JobKind × Text => Job
  outputs : AList fun _ : Text => Stage1Output

def defaultRetryRemaining : Int := 3

def memoryConsolidationJobKey : Text := "global".toList

def i64Max : Int := 2 ^ 63 - 1

/-- `i64::saturating_add` of a non-negative number. -/
def saturatingAdd (a b : Int) : Int := min (a + b) i64Max

/-- `n as i64`. -/
def asI64 (n : Nat) : Int := Int.bmod n (2 ^ 64)

namespace MemoryDb

def empty : MemoryDb := { jobs := ∅, outputs := ∅ }

def stage1Job (db : MemoryDb) (threadId : Text) : Option Job := db.jobs.lookup (.memoryStage1, threadId)

def setStage1Job (db : MemoryDb) (threadId : Text) (job : Job) : MemoryDb :=
  { db with jobs := db.jobs.insert (.memoryStage1, threadId) job }

end MemoryDb

def Job.leased (now : Int) (job : Job) : Bool := job.status == .running && job.leaseUntil.any (now < ·)

/-- `COUNT(*)` of the leased stage-1 jobs whose key passes. -/
def MemoryDb.leasedJobs (db : MemoryDb) (now : Int) (counts : Text → Bool) : Nat :=
  db.jobs.entries.countP fun row => row.1.1 == .memoryStage1 && row.2.leased now && counts row.1.2

/-! ## The global consolidation job -/

def enqueueGlobalConsolidation (db : MemoryDb) (inputWatermark : Int) : MemoryDb :=
  let key := (JobKind.memoryConsolidateGlobal, memoryConsolidationJobKey)
  let job := match db.jobs.lookup key with
    | none =>
      { status := .pending, workerId := none, ownershipToken := none, startedAt := none, finishedAt := none,
        leaseUntil := none, retryAt := none, retryRemaining := defaultRetryRemaining, lastError := none,
        inputWatermark := some inputWatermark, lastSuccessWatermark := some 0 }
    | some job =>
      { job with
        status := if job.status = .running then .running else .pending
        retryAt := if job.status = .running then job.retryAt else none
        retryRemaining := max job.retryRemaining defaultRetryRemaining
        inputWatermark := some (if job.inputWatermark.getD 0 < inputWatermark then inputWatermark
          else job.inputWatermark.getD 0 + 1) }
  { db with jobs := db.jobs.insert key job }

/-! ## Claims -/

inductive Stage1JobClaimOutcome where
  | claimed (ownershipToken : Text)
  | skippedUpToDate
  | skippedRunning
  | skippedRetryBackoff
  | skippedRetryExhausted
  deriving DecidableEq, Repr

structure ClaimRequest where
  threadId : Text
  workerId : Text
  sourceUpdatedAt : Int
  leaseSeconds : Int
  ownershipToken : Text

section
variable (maxRunningJobs : Nat) (now : Int)

/-- `excluded.input_watermark > COALESCE(jobs.input_watermark, -1)`. -/
def ClaimRequest.advances (req : ClaimRequest) (job : Job) : Bool := job.inputWatermark.getD (-1) < req.sourceUpdatedAt

/-- The row the upsert inserts. -/
def ClaimRequest.newJob (req : ClaimRequest) : Job where
  status := .running
  workerId := some req.workerId
  ownershipToken := some req.ownershipToken
  startedAt := some now
  finishedAt := none
  leaseUntil := some (saturatingAdd now (max req.leaseSeconds 0))
  retryAt := none
  retryRemaining := defaultRetryRemaining
  lastError := none
  inputWatermark := some req.sourceUpdatedAt
  lastSuccessWatermark := none

/-- The `WHERE` of the upsert's update. -/
def ClaimRequest.mayUpdate (req : ClaimRequest) (db : MemoryDb) (job : Job) : Bool :=
  (job.status != .running || job.leaseUntil.all (· ≤ now)) &&
    (job.retryAt.all (· ≤ now) || req.advances job) &&
    (0 < job.retryRemaining || req.advances job) &&
    (db.leasedJobs now (· != req.threadId) : Int) < asI64 maxRunningJobs

/-- The row the upsert leaves, if it affects one. -/
def ClaimRequest.upsert (req : ClaimRequest) (db : MemoryDb) : Option Job :=
  if (db.leasedJobs now fun _ => true : Int) < asI64 maxRunningJobs then
    match db.stage1Job req.threadId with
    | none => some (req.newJob now)
    | some job =>
      if req.mayUpdate maxRunningJobs now db job then
        some { req.newJob now with
          retryRemaining := if req.advances job then defaultRetryRemaining else job.retryRemaining
          lastSuccessWatermark := job.lastSuccessWatermark }
      else none
  else none

/-- Why nothing was claimed. -/
def skipOutcome (job : Option Job) : Stage1JobClaimOutcome :=
  match job with
  | none => .skippedRunning
  | some job =>
    if job.retryRemaining ≤ 0 then .skippedRetryExhausted
    else if job.retryAt.any (now < ·) then .skippedRetryBackoff
    else .skippedRunning

def tryClaimStage1Job (req : ClaimRequest) (db : MemoryDb) : Stage1JobClaimOutcome × MemoryDb :=
  if (db.outputs.lookup req.threadId).any (req.sourceUpdatedAt ≤ ·.sourceUpdatedAt) then (.skippedUpToDate, db)
  else if ((db.stage1Job req.threadId).bind Job.lastSuccessWatermark).any (req.sourceUpdatedAt ≤ ·) then
    (.skippedUpToDate, db)
  else
    match req.upsert maxRunningJobs now db with
    | some job => (.claimed req.ownershipToken, db.setStage1Job req.threadId job)
    | none => (skipOutcome now (db.stage1Job req.threadId), db)

/-! ## Completions -/

/-- The row a completion updates: the thread's running job with this token. -/
def ownedJob (db : MemoryDb) (threadId ownershipToken : Text) : Option Job :=
  (db.stage1Job threadId).filter fun job => job.status == .running && job.ownershipToken == some ownershipToken

/-- The update of a successful job. -/
def Job.succeed (job : Job) : Job :=
  { job with
    status := .done
    finishedAt := some now
    leaseUntil := none
    lastError := none
    lastSuccessWatermark := job.inputWatermark }

/-- The update of a failed job. -/
def Job.fail (failureReason : Text) (retryDelaySeconds : Int) (job : Job) : Job :=
  { job with
    status := .error
    finishedAt := some now
    leaseUntil := none
    retryAt := some (saturatingAdd now (max retryDelaySeconds 0))
    retryRemaining := job.retryRemaining - 1
    lastError := some failureReason }

structure ExtractedMemory where
  rawMemory : Text
  rolloutSummary : Text
  rolloutSlug : Option Text

/-- The upsert of `stage1_outputs`. -/
def upsertOutput (db : MemoryDb) (threadId : Text) (sourceUpdatedAt : Int) (memory : ExtractedMemory) : MemoryDb :=
  let output (selectedForPhase2 : Bool) : Stage1Output :=
    { sourceUpdatedAt, rawMemory := memory.rawMemory, rolloutSummary := memory.rolloutSummary,
      rolloutSlug := memory.rolloutSlug, generatedAt := now, selectedForPhase2 }
  match db.outputs.lookup threadId with
  | none => { db with outputs := db.outputs.insert threadId (output false) }
  | some old =>
    if old.sourceUpdatedAt ≤ sourceUpdatedAt then
      { db with outputs := db.outputs.insert threadId (output old.selectedForPhase2) }
    else db

def markStage1JobSucceeded (threadId ownershipToken : Text) (sourceUpdatedAt : Int) (memory : ExtractedMemory)
    (db : MemoryDb) : Bool × MemoryDb :=
  match ownedJob db threadId ownershipToken with
  | none => (false, db)
  | some job =>
    (true, enqueueGlobalConsolidation
      (upsertOutput now (db.setStage1Job threadId (job.succeed now)) threadId sourceUpdatedAt memory) sourceUpdatedAt)

/-- `mark_stage1_job_succeeded_no_output`; a `NULL` watermark fails to decode and rolls back, which
no claimed row has. -/
def markStage1JobSucceededNoOutput (threadId ownershipToken : Text) (db : MemoryDb) : Bool × MemoryDb :=
  match ownedJob db threadId ownershipToken with
  | none => (false, db)
  | some job =>
    match job.inputWatermark with
    | none => (false, db)
    | some sourceUpdatedAt =>
      let marked := db.setStage1Job threadId (job.succeed now)
      let erased := { marked with outputs := marked.outputs.erase threadId }
      (true, if (db.outputs.lookup threadId).isSome then enqueueGlobalConsolidation erased sourceUpdatedAt else erased)

def markStage1JobFailed (threadId ownershipToken : Text) (failureReason : Text) (retryDelaySeconds : Int)
    (db : MemoryDb) : Bool × MemoryDb :=
  match ownedJob db threadId ownershipToken with
  | none => (false, db)
  | some job => (true, db.setStage1Job threadId (job.fail now failureReason retryDelaySeconds))

/-! ## Deletions -/

def deleteThreadMemory (threadId : Text) (db : MemoryDb) : MemoryDb :=
  let erased : MemoryDb :=
    { jobs := db.jobs.erase (.memoryStage1, threadId), outputs := db.outputs.erase threadId }
  if (db.outputs.lookup threadId).any (·.selectedForPhase2) then enqueueGlobalConsolidation erased now else erased

/-- Every job is of one of the two kinds. -/
def clearMemoryData (_ : MemoryDb) : MemoryDb := .empty

/-! ## Runs -/

inductive Call where
  | tryClaim (req : ClaimRequest)
  | markSucceeded (threadId ownershipToken : Text) (sourceUpdatedAt : Int) (memory : ExtractedMemory)
  | markSucceededNoOutput (threadId ownershipToken : Text)
  | markFailed (threadId ownershipToken failureReason : Text) (retryDelaySeconds : Int)
  | deleteThread (threadId : Text)
  | clear

inductive Answer where
  | claim (outcome : Stage1JobClaimOutcome)
  | completed (updated : Bool)
  | done
  deriving DecidableEq, Repr

def Call.perform (call : Call) (db : MemoryDb) : Answer × MemoryDb :=
  match call with
  | .tryClaim req => ((tryClaimStage1Job maxRunningJobs now req db).map .claim id)
  | .markSucceeded threadId token source memory =>
    (markStage1JobSucceeded now threadId token source memory db).map .completed id
  | .markSucceededNoOutput threadId token => (markStage1JobSucceededNoOutput now threadId token db).map .completed id
  | .markFailed threadId token reason delay => (markStage1JobFailed now threadId token reason delay db).map .completed id
  | .deleteThread threadId => (.done, deleteThreadMemory now threadId db)
  | .clear => (.done, clearMemoryData db)

end

/-- A call and the clock it reads. -/
structure Step where
  now : Int
  call : Call

def Step.perform (maxRunningJobs : Nat) (step : Step) (db : MemoryDb) : Answer × MemoryDb :=
  step.call.perform maxRunningJobs step.now db

/-- The tables after the steps, from empty ones. -/
def run (maxRunningJobs : Nat) (steps : List Step) : MemoryDb :=
  steps.foldl (fun db step => (step.perform maxRunningJobs db).2) .empty

end Codex.Memories
