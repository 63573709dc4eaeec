/-
Thread goals (`state/src/runtime/goals.rs`): a table with one row for a thread at
most. Each operation is one SQL statement, so that the calls of any number of
tasks are a list of them, each with the clock it reads and the id it makes up. A
call whose statement fails has no effect and is left out.

The columns for counts start as 64-bit integers and are SQLite numbers from
then on: a row whose count has become too large is still kept, but its goal can no
longer be read.
-/
import Codex.EpochMillis
import Codex.Lib.SqliteNumbers
import Codex.Text
import Mathlib.Logic.Function.Basic

namespace Codex.Goals

open EpochMillis SqliteNumbers

inductive ThreadGoalStatus where
  | active
  | paused
  | blocked
  | usageLimited
  | budgetLimited
  | complete
  deriving DecidableEq, Repr

structure ThreadGoal (T : Type) where
  threadId : T
  goalId : Text
  objective : Text
  status : ThreadGoalStatus
  tokenBudget : Option Int64
  tokensUsed : Int64
  timeUsedSeconds : Int64
  createdAt : DateTime
  updatedAt : DateTime

/-- A row of `thread_goals`, whose key is the thread. -/
structure ThreadGoalRow (R : Type) where
  goalId : Text
  objective : Text
  status : ThreadGoalStatus
  tokenBudget : Option Int64
  tokensUsed : Number R
  timeUsedSeconds : Number R
  createdAtMs : Int64
  updatedAtMs : Int64
  deriving DecidableEq

inductive RowError where
  | columnDecode (column : String)
  | invalidTimestamp (millis : Int64)
  deriving DecidableEq

variable {T R : Type}

def decodeInteger (column : String) : Number R → Except RowError Int64
  | .integer n => .ok n
  | .real _ => .error (.columnDecode column)

def decodeTimestamp (millis : Int64) : Except RowError DateTime :=
  match epochMillisToDatetime millis with
  | some dt => .ok dt
  | none => .error (.invalidTimestamp millis)

def threadGoalFromRow (threadId : T) (row : ThreadGoalRow R) : Except RowError (ThreadGoal T) := do
  let tokensUsed ← decodeInteger "tokens_used" row.tokensUsed
  let timeUsedSeconds ← decodeInteger "time_used_seconds" row.timeUsedSeconds
  let createdAt ← decodeTimestamp row.createdAtMs
  let updatedAt ← decodeTimestamp row.updatedAtMs
  return {
    threadId, goalId := row.goalId, objective := row.objective, status := row.status, tokenBudget := row.tokenBudget,
    tokensUsed, timeUsedSeconds, createdAt, updatedAt }

/-- What is read back, if anything. -/
def readRow (threadId : T) : Option (ThreadGoalRow R) → Except RowError (Option (ThreadGoal T))
  | none => .ok none
  | some row => (threadGoalFromRow threadId row).map some

/-! ## Tables -/

/-- `thread_goals` and `thread_goal_continuation_deferrals` -/
structure GoalStore (T R : Type) where
  goals : T → Option (ThreadGoalRow R)
  deferrals : T → Bool

def GoalStore.empty : GoalStore T R := ⟨fun _ => none, fun _ => false⟩

section
variable [DecidableEq T]

namespace GoalStore

def put (store : GoalStore T R) (threadId : T) (row : ThreadGoalRow R) : GoalStore T R :=
  { store with goals := Function.update store.goals threadId (some row) }

/-- `INSERT .. ON CONFLICT(thread_id) DO UPDATE .. WHERE ..`, with the row written if one is. -/
def upsert (store : GoalStore T R) (threadId : T) (replaces : ThreadGoalRow R → Bool) (row : ThreadGoalRow R) :
    GoalStore T R × Option (ThreadGoalRow R) :=
  if (store.goals threadId).all replaces then (store.put threadId row, some row) else (store, none)

/-- `UPDATE .. SET .. WHERE thread_id = ? AND ..`, with the row as updated if it is. -/
def update (store : GoalStore T R) (threadId : T) (matching : ThreadGoalRow R → Bool)
    (set : ThreadGoalRow R → ThreadGoalRow R) : GoalStore T R × Option (ThreadGoalRow R) :=
  match (store.goals threadId).filter matching with
  | some row => (store.put threadId (set row), some (set row))
  | none => (store, none)

end GoalStore

/-! ## Operations -/

def getThreadGoal (store : GoalStore T R) (threadId : T) : Except RowError (Option (ThreadGoal T)) :=
  readRow threadId (store.goals threadId)

def replaceThreadGoalSnapshot (store : GoalStore T R) (goal : ThreadGoal T) : GoalStore T R :=
  let written := store.put goal.threadId {
    goalId := goal.goalId, objective := goal.objective, status := goal.status, tokenBudget := goal.tokenBudget,
    tokensUsed := .integer goal.tokensUsed, timeUsedSeconds := .integer goal.timeUsedSeconds,
    createdAtMs := datetimeToEpochMillis goal.createdAt, updatedAtMs := datetimeToEpochMillis goal.updatedAt }
  { written with deferrals := Function.update written.deferrals goal.threadId true }

def hasThreadGoalContinuationDeferral (store : GoalStore T R) (threadId : T) : Bool := store.deferrals threadId

def clearThreadGoalContinuationDeferral (store : GoalStore T R) (threadId : T) : GoalStore T R :=
  { store with deferrals := Function.update store.deferrals threadId false }

def statusAfterBudgetLimit (status : ThreadGoalStatus) (tokensUsed : Int64) (tokenBudget : Option Int64) : ThreadGoalStatus :=
  if status = .active ∧ tokenBudget.any (· ≤ tokensUsed) then .budgetLimited else status

/-- What a replacement or an insertion is given. -/
structure NewGoal where
  objective : Text
  status : ThreadGoalStatus
  tokenBudget : Option Int64
  /-- `Uuid::new_v4` -/
  goalId : Text
  nowMs : Int64

def NewGoal.row (new : NewGoal) : ThreadGoalRow R where
  goalId := new.goalId
  objective := new.objective
  status := statusAfterBudgetLimit new.status 0 new.tokenBudget
  tokenBudget := new.tokenBudget
  tokensUsed := .integer 0
  timeUsedSeconds := .integer 0
  createdAtMs := new.nowMs
  updatedAtMs := new.nowMs

def replaceStatement (store : GoalStore T R) (threadId : T) (new : NewGoal) : GoalStore T R × Option (ThreadGoalRow R) :=
  store.upsert threadId (fun _ => true) new.row

def replaceThreadGoal (store : GoalStore T R) (threadId : T) (new : NewGoal) :
    GoalStore T R × Except RowError (ThreadGoal T) :=
  ((replaceStatement store threadId new).1, threadGoalFromRow threadId (new.row (R := R)))

def insertStatement (store : GoalStore T R) (threadId : T) (new : NewGoal) : GoalStore T R × Option (ThreadGoalRow R) :=
  store.upsert threadId (fun old => old.status = .complete) new.row

def insertThreadGoal (store : GoalStore T R) (threadId : T) (new : NewGoal) :
    GoalStore T R × Except RowError (Option (ThreadGoal T)) :=
  let (store, row) := insertStatement store threadId new
  (store, readRow threadId row)

structure GoalUpdate where
  objective : Option Text
  status : Option ThreadGoalStatus
  tokenBudget : Option (Option Int64)
  expectedGoalId : Option Text

variable (reals : Reals R)

/-- `? IS NOT NULL AND tokens_used >= ?` -/
def overBudget (tokenBudget : Option Int64) (tokensUsed : Number R) : Bool := tokenBudget.any (tokensUsed.atLeast reals)

/-- The `CASE` of an update that sets the status, under the budget then in force. -/
def setStatus (row : ThreadGoalRow R) (status : ThreadGoalStatus) (tokenBudget : Option Int64) : ThreadGoalStatus :=
  if row.status = .budgetLimited ∧ (status = .paused ∨ status = .blocked) then row.status
  else if status = .active ∧ overBudget reals tokenBudget row.tokensUsed then .budgetLimited
  else status

/-- The `SET` of each shape of update. -/
def GoalUpdate.set (update : GoalUpdate) (nowMs : Int64) (row : ThreadGoalRow R) : ThreadGoalRow R :=
  match update.status, update.tokenBudget with
  | some status, some tokenBudget => { row with
      objective := update.objective.getD row.objective
      status := setStatus reals row status tokenBudget
      tokenBudget
      updatedAtMs := nowMs }
  | some status, none => { row with
      objective := update.objective.getD row.objective
      status := setStatus reals row status row.tokenBudget
      updatedAtMs := nowMs }
  | none, some tokenBudget => { row with
      objective := update.objective.getD row.objective
      tokenBudget
      status := if row.status = .active ∧ overBudget reals tokenBudget row.tokensUsed then .budgetLimited else row.status
      updatedAtMs := nowMs }
  | none, none => { row with
      objective := update.objective.getD row.objective
      updatedAtMs := nowMs }

/-- `? IS NULL OR goal_id = ?` -/
def expects (expectedGoalId : Option Text) (row : ThreadGoalRow R) : Bool := expectedGoalId.all (· = row.goalId)

def updateThreadGoal (store : GoalStore T R) (threadId : T) (update : GoalUpdate) (nowMs : Int64) :
    GoalStore T R × Except RowError (Option (ThreadGoal T)) :=
  if update.status = none ∧ update.tokenBudget = none ∧ update.objective = none then
    -- the id is compared once the goal is read
    (store, (getThreadGoal store threadId).map fun goal => goal.filter fun goal => update.expectedGoalId.all (· = goal.goalId))
  else
    match store.update threadId (expects update.expectedGoalId) (update.set reals nowMs) with
    | (store, none) => (store, .ok none)
    | (store, some _) => (store, getThreadGoal store threadId)

def updateActiveThreadGoalStatus (store : GoalStore T R) (threadId : T) (status : ThreadGoalStatus) (nowMs : Int64) :
    GoalStore T R × Except RowError (Option (ThreadGoal T)) :=
  match store.update threadId
    (fun row => row.status = .active ∨ status = .usageLimited ∧ row.status = .budgetLimited)
    (fun row => { row with status, updatedAtMs := nowMs }) with
  | (store, none) => (store, .ok none)
  | (store, some _) => (store, getThreadGoal store threadId)

def pauseActiveThreadGoal (store : GoalStore T R) (threadId : T) (nowMs : Int64) :
    GoalStore T R × Except RowError (Option (ThreadGoal T)) :=
  updateActiveThreadGoalStatus store threadId .paused nowMs

def usageLimitActiveThreadGoal (store : GoalStore T R) (threadId : T) (nowMs : Int64) :
    GoalStore T R × Except RowError (Option (ThreadGoal T)) :=
  updateActiveThreadGoalStatus store threadId .usageLimited nowMs

/-- A deferral goes with its goal. -/
def deleteThreadGoal (store : GoalStore T R) (threadId : T) : GoalStore T R × Except RowError (Option (ThreadGoal T)) :=
  match store.goals threadId with
  | none => (store, .ok none)
  | some row => (⟨Function.update store.goals threadId none, Function.update store.deferrals threadId false⟩,
      readRow threadId (some row))

/-! ## Accounting -/

inductive GoalAccountingMode where
  | activeStatusOnly
  | activeOnly
  | activeOrComplete
  | activeOrStopped
  deriving DecidableEq, Repr

inductive GoalAccountingOutcome (T : Type) where
  | unchanged (goal : Option (ThreadGoal T))
  | updated (goal : ThreadGoal T)

def activeOrStopped : List ThreadGoalStatus := [.active, .paused, .blocked, .usageLimited, .budgetLimited]

namespace GoalAccountingMode

def statusFilter : GoalAccountingMode → List ThreadGoalStatus
  | activeStatusOnly => [.active]
  | activeOnly => [.active, .budgetLimited]
  | activeOrComplete => [.active, .budgetLimited, .complete]
  | activeOrStopped => Goals.activeOrStopped

def budgetLimitStatusFilter : GoalAccountingMode → List ThreadGoalStatus
  | activeStatusOnly | activeOnly | activeOrComplete => [.active]
  | activeOrStopped => Goals.activeOrStopped

end GoalAccountingMode

structure Usage where
  timeDeltaSeconds : Int64
  tokenDelta : Int64
  mode : GoalAccountingMode
  expectedGoalId : Option Text

/-- The `SET` of the statement, of deltas that are not negative. -/
def Usage.set (usage : Usage) (nowMs : Int64) (row : ThreadGoalRow R) : ThreadGoalRow R :=
  let tokensUsed := row.tokensUsed.add reals (max usage.tokenDelta 0)
  { row with
    timeUsedSeconds := row.timeUsedSeconds.add reals (max usage.timeDeltaSeconds 0)
    tokensUsed
    status := if row.status ∈ usage.mode.budgetLimitStatusFilter ∧ overBudget reals row.tokenBudget tokensUsed then
        .budgetLimited
      else row.status
    updatedAtMs := nowMs }

/-- Nothing is run without a positive delta. -/
def accountStatement (store : GoalStore T R) (threadId : T) (usage : Usage) (nowMs : Int64) :
    GoalStore T R × Option (ThreadGoalRow R) :=
  if max usage.timeDeltaSeconds 0 = 0 ∧ max usage.tokenDelta 0 = 0 then (store, none)
  else
    store.update threadId
      (fun row => row.status ∈ usage.mode.statusFilter ∧ expects usage.expectedGoalId row) (usage.set reals nowMs)

def accountThreadGoalUsage (store : GoalStore T R) (threadId : T) (usage : Usage) (nowMs : Int64) :
    GoalStore T R × Except RowError (GoalAccountingOutcome T) :=
  match accountStatement reals store threadId usage nowMs with
  | (store, none) => (store, (getThreadGoal store threadId).map .unchanged)
  | (store, some row) => (store, (threadGoalFromRow threadId row).map .updated)

/-! ## Runs -/

inductive Call (T : Type) where
  | replaceSnapshot (goal : ThreadGoal T)
  | replace (threadId : T) (new : NewGoal)
  | insert (threadId : T) (new : NewGoal)
  | update (threadId : T) (update : GoalUpdate) (nowMs : Int64)
  | pause (threadId : T) (nowMs : Int64)
  | usageLimit (threadId : T) (nowMs : Int64)
  | account (threadId : T) (usage : Usage) (nowMs : Int64)
  | delete (threadId : T)
  | clearDeferral (threadId : T)

def step (store : GoalStore T R) : Call T → GoalStore T R
  | .replaceSnapshot goal => replaceThreadGoalSnapshot store goal
  | .replace threadId new => (replaceThreadGoal store threadId new).1
  | .insert threadId new => (insertThreadGoal store threadId new).1
  | .update threadId update nowMs => (updateThreadGoal reals store threadId update nowMs).1
  | .pause threadId nowMs => (pauseActiveThreadGoal store threadId nowMs).1
  | .usageLimit threadId nowMs => (usageLimitActiveThreadGoal store threadId nowMs).1
  | .account threadId usage nowMs => (accountThreadGoalUsage reals store threadId usage nowMs).1
  | .delete threadId => (deleteThreadGoal store threadId).1
  | .clearDeferral threadId => clearThreadGoalContinuationDeferral store threadId

end

end Codex.Goals
