/-
A paginated rollout projected into the history database:
`materialize_to_sqlite` (`thread-store/src/local/thread_history_materialization.rs`)
reads the lines a file has gained, `project_rollout_line`
(`app-server-protocol/src/protocol/thread_history_projection.rs`) says what each
changes, and `apply_projection` (`thread-store/src/local/thread_history.rs`) writes
the rows and advances the offset in one transaction.

The database is one thread's part of it. A row holds the values that its text and JSON
columns encode. The tables are lists in the order of insertion, which no statement depends
on, and whose unique index on ordinals is never violated.

Parsing and UTF-8 are the parameter `LineParser`; a record's item is what
`ThreadItem::from` makes of it. Lengths and ordinals are unbounded where the
code's `u64` and `usize` arithmetic is checked; the `i64` bounds of SQLite are kept.
-/
import Codex.ThreadHistory
import Codex.Lib.Records

namespace Codex.Projection

abbrev Bytes := List UInt8

def newline : UInt8 := 10

/-! ## Lines -/

/-- A `RolloutItem`, by what the projection reads of it. -/
inductive RecordItem where
  | sessionMeta (subagentHistoryStartOrdinal : Option Nat)
  | responseItem
  | interAgentCommunication
  | interAgentCommunicationMetadata
  | compacted
  | turnContext
  | worldState
  | turnStarted (turnId : String) (startedAt : Option Int)
  | turnComplete (turnId : String) (error : Option ErrorEvent) (startedAt completedAt durationMs : Option Int)
  | turnAborted (turnId : Option String) (startedAt completedAt durationMs : Option Int)
  | itemCompleted (turnId : String) (item : ThreadItem)
  | otherEvent
  deriving DecidableEq

structure RolloutLine where
  ordinal : Option Nat
  timestamp : Text
  item : RecordItem
  deriving DecidableEq

structure LineParser where
  /-- `serde_json::from_slice` -/
  fromSlice : Bytes → Option RolloutLine
  /-- A line of the line reader, which fails on invalid UTF-8. -/
  decode : Bytes → Option Text
  /-- `serde_json::from_str` -/
  fromStr : Text → Option RolloutLine
  /-- `reject_unknown_thread_history_mode` of a line that is JSON but no rollout line. -/
  unknownHistoryMode : Text → Bool
  /-- `DateTime::parse_from_rfc3339`, in milliseconds. -/
  parseTimestamp : Text → Option Int

def isAsciiWhitespace (b : UInt8) : Bool := b == 9 || b == 10 || b == 12 || b == 13 || b == 32

structure CompleteRolloutLine where
  line : RolloutLine
  startByteOffset : Nat
  endByteOffset : Nat
  deriving DecidableEq

section
variable (parser : LineParser)

/-- The line of a record of the file; blank and rejected records have none. -/
def parseRecord (start : Nat) (record : Bytes) : Option CompleteRolloutLine :=
  if record.all isAsciiWhitespace then none
  else (parser.fromSlice record).map fun line =>
    { line, startByteOffset := start, endByteOffset := start + record.length }

/-- The loop of `read_complete_rollout_lines` over the records from an offset on. -/
def parseRecords (start : Nat) : List Bytes → List CompleteRolloutLine
  | [] => []
  | record :: rest => (parseRecord parser start record).toList ++ parseRecords (start + record.length) rest

/-- `read_complete_rollout_lines`; it fails on a file shorter than the offset. -/
def readCompleteRolloutLines (file : Bytes) (startOffset : Nat) : Option (List CompleteRolloutLine × Nat) :=
  if startOffset ≤ file.length then
    let records := Records.records newline (file.drop startOffset)
    some (parseRecords parser startOffset records, startOffset + records.flatten.length)
  else none

/-! ## Session metadata -/

inductive LineVerdict where
  | skip
  | reject
  | found (subagentHistoryStartOrdinal : Option Nat)

/-- The loop body of `read_session_meta_line`. -/
def sessionMetaVerdict (line : Bytes) : LineVerdict :=
  match parser.decode line with
  | none => .reject
  | some text =>
    let trimmed := Text.trim text
    if trimmed = [] then .skip
    else match parser.fromStr trimmed with
      | none => if parser.unknownHistoryMode trimmed then .reject else .skip
      | some rolloutLine => match rolloutLine.item with
        | .sessionMeta start => .found start
        | .responseItem | .interAgentCommunication => .reject
        | _ => .skip

def scanSessionMeta : List Bytes → Option (Option Nat)
  | [] => none
  | line :: lines => match sessionMetaVerdict parser line with
    | .skip => scanSessionMeta lines
    | .reject => none
    | .found start => some start

/-- The lines of a line reader: a last one without a newline counts. -/
def readerLines (file : Bytes) : List Bytes :=
  (Records.records newline file).map List.dropLast ++
    if Records.rest newline file = [] then [] else [Records.rest newline file]

/-- `read_session_meta_line`, by the field the projection uses. -/
def readSessionMetaLine (file : Bytes) : Option (Option Nat) := scanSessionMeta parser (readerLines file)

end

/-! ## Changes -/

structure ProjectedRolloutLine where
  ordinal : Nat
  startByteOffset : Nat
  endByteOffset : Nat
  createdAtMs : Int
  changes : ThreadHistoryChangeSet
  deriving DecidableEq

def turnErrorOf (error : ErrorEvent) : TurnError := { message := error.message, codexErrorInfo := error.codexErrorInfo }

def projectRolloutLine (line : RolloutLine) : ThreadHistoryChangeSet :=
  match line.item with
  | .turnStarted turnId startedAt =>
    { changedTurns := [{ turnId, status := .inProgress, error := none, startedAt, completedAt := none, durationMs := none }] }
  | .turnComplete turnId error startedAt completedAt durationMs =>
    { changedTurns := [{
        turnId
        status := if error.isSome then .failed else .completed
        error := error.map turnErrorOf
        startedAt, completedAt, durationMs }] }
  | .turnAborted (some turnId) startedAt completedAt durationMs =>
    { changedTurns := [{ turnId, status := .interrupted, error := none, startedAt, completedAt, durationMs }] }
  | .itemCompleted turnId item => { changedItems := [{ turnId, item }] }
  | _ => {}

/-- The projection of one line; a line without an ordinal or with a bad timestamp fails. -/
def projectLine (parser : LineParser) (subagentHistoryStartOrdinal : Option Nat) (record : CompleteRolloutLine) :
    Option ProjectedRolloutLine := do
  let ordinal ← record.line.ordinal
  let createdAtMs ← parser.parseTimestamp record.line.timestamp
  let changes := if subagentHistoryStartOrdinal.any (ordinal < ·) then {} else projectRolloutLine record.line
  pure { ordinal, startByteOffset := record.startByteOffset, endByteOffset := record.endByteOffset, createdAtMs, changes }

/-! ## The database -/

structure TurnRow where
  turnId : String
  rolloutOrdinal : Nat
  rolloutByteOffset : Nat
  rolloutEndOrdinal : Option Nat
  rolloutEndByteOffset : Option Nat
  status : TurnStatus
  error : Option TurnError
  startedAt : Option Int
  completedAt : Option Int
  durationMs : Option Int
  firstUserItemId : Option String := none
  finalAgentItemId : Option String := none
  deriving DecidableEq

structure ItemRow where
  turnId : String
  itemId : String
  rolloutOrdinal : Nat
  createdAtMs : Int
  item : ThreadItem
  deriving DecidableEq

structure ProjectionState where
  nextRolloutByteOffset : Nat
  nextRolloutOrdinal : Nat
  deriving DecidableEq

structure HistoryDb where
  projectionState : Option ProjectionState := none
  turns : List TurnRow := []
  items : List ItemRow := []
  deriving DecidableEq

namespace TurnRow

/-- `rollout_end_ordinal IS NULL AND status = 'inProgress'` -/
def isOpen (row : TurnRow) : Bool := row.rolloutEndOrdinal.isNone && row.status == .inProgress

end TurnRow

def isUserMessage : ThreadItem → Bool
  | .userMessage .. => true
  | _ => false

def isFinalAnswer : ThreadItem → Bool
  | .agentMessage _ _ (some .finalAnswer) _ => true
  | _ => false

def isUnphasedAgentMessage : ThreadItem → Bool
  | .agentMessage _ _ none _ => true
  | _ => false

namespace HistoryDb

/-- `SELECT item_id … ORDER BY rollout_ordinal LIMIT 1` over a turn's items of a kind. -/
def firstItemId (db : HistoryDb) (turnId : String) (kind : ThreadItem → Bool) : Option String :=
  ((db.items.filter fun row => row.turnId == turnId && kind row.item).foldl
    (fun best row => match best with
      | none => some row
      | some other => if row.rolloutOrdinal < other.rolloutOrdinal then some row else some other) none).map ItemRow.itemId

/-- The same with `ORDER BY rollout_ordinal DESC`. -/
def lastItemId (db : HistoryDb) (turnId : String) (kind : ThreadItem → Bool) : Option String :=
  ((db.items.filter fun row => row.turnId == turnId && kind row.item).foldl
    (fun best row => match best with
      | none => some row
      | some other => if other.rolloutOrdinal < row.rolloutOrdinal then some row else some other) none).map ItemRow.itemId

def updateTurn (db : HistoryDb) (turnId : String) (update : TurnRow → TurnRow) : HistoryDb :=
  { db with turns := db.turns.map fun row => if row.turnId = turnId then update row else row }

/-- The upsert of a changed turn: a row that has ended stays as it is. -/
def upsertTurn (db : HistoryDb) (row : TurnRow) : HistoryDb :=
  if db.turns.any (·.turnId = row.turnId) then
    db.updateTurn row.turnId fun old =>
      if old.isOpen then
        { row with
          rolloutOrdinal := old.rolloutOrdinal
          rolloutByteOffset := old.rolloutByteOffset
          firstUserItemId := old.firstUserItemId
          finalAgentItemId := old.finalAgentItemId }
      else old
  else { db with turns := db.turns ++ [row] }

/-- The summary ids of a turn whose items came before it. -/
def fillSummaryIds (db : HistoryDb) (turnId : String) (ordinal : Nat) : HistoryDb :=
  db.updateTurn turnId fun row =>
    if row.rolloutEndOrdinal = some ordinal || row.status == .inProgress then
      { row with
        firstUserItemId := row.firstUserItemId.or (db.firstItemId turnId isUserMessage)
        finalAgentItemId := ((db.lastItemId turnId isFinalAnswer).or
          (if row.status == .inProgress then none else db.lastItemId turnId isUnphasedAgentMessage)).or row.finalAgentItemId }
    else row

def isTerminal (status : TurnStatus) : Bool := status != .inProgress

def applyTurnChange (line : ProjectedRolloutLine) (db : HistoryDb) (turn : ThreadHistoryTurnChange) : HistoryDb :=
  let row : TurnRow :=
    { turnId := turn.turnId
      rolloutOrdinal := line.ordinal
      rolloutByteOffset := line.startByteOffset
      rolloutEndOrdinal := if isTerminal turn.status then some line.ordinal else none
      rolloutEndByteOffset := if isTerminal turn.status then some line.endByteOffset else none
      status := turn.status
      error := turn.error
      startedAt := turn.startedAt
      completedAt := turn.completedAt
      durationMs := turn.durationMs }
  (db.upsertTurn row).fillSummaryIds turn.turnId line.ordinal

/-- The upsert of a changed item: it keeps its first ordinal and creation time. -/
def upsertItem (db : HistoryDb) (row : ItemRow) : HistoryDb :=
  if db.items.any fun old => old.turnId = row.turnId && old.itemId = row.itemId then
    { db with
      items := db.items.map fun old =>
        if old.turnId = row.turnId ∧ old.itemId = row.itemId then { old with item := row.item } else old }
  else { db with items := db.items ++ [row] }

def applyItemChange (line : ProjectedRolloutLine) (db : HistoryDb) (change : ThreadHistoryItemChange) : HistoryDb :=
  let itemId := change.item.id
  let db := db.upsertItem
    { turnId := change.turnId, itemId, rolloutOrdinal := line.ordinal, createdAtMs := line.createdAtMs, item := change.item }
  if isUserMessage change.item then
    db.updateTurn change.turnId fun row =>
      if row.isOpen then { row with firstUserItemId := row.firstUserItemId.or (some itemId) } else row
  else if isFinalAnswer change.item then
    db.updateTurn change.turnId fun row => if row.isOpen then { row with finalAgentItemId := some itemId } else row
  else db

def applyChangeSet (db : HistoryDb) (line : ProjectedRolloutLine) : HistoryDb :=
  let db := line.changes.changedTurns.foldl (applyTurnChange line) db
  line.changes.changedItems.foldl (applyItemChange line) db

end HistoryDb

/-- `i64::try_from` -/
def sqliteInteger (value : Nat) : Option Nat := if value < 2 ^ 63 then some value else none

theorem sqliteInteger_of_lt {value : Nat} (h : value < 2 ^ 63) : sqliteInteger value = some value := if_pos h

theorem sqliteInteger_of_le {value : Nat} (h : 2 ^ 63 ≤ value) : sqliteInteger value = none := if_neg (Nat.not_lt.2 h)

/-- The loop body of `apply_projection`: the rows, and the ordinal expected of the next line. -/
def applyLine (state : HistoryDb × Nat) (line : ProjectedRolloutLine) : Option (HistoryDb × Nat) := do
  let ordinal ← sqliteInteger line.ordinal
  if ordinal ≠ state.2 then none
  else
    let _ ← sqliteInteger line.startByteOffset
    let _ ← sqliteInteger line.endByteOffset
    let nextOrdinal ← sqliteInteger (state.2 + 1)
    pure (state.1.applyChangeSet line, nextOrdinal)

namespace HistoryDb

def nextRolloutByteOffset (db : HistoryDb) : Nat := (db.projectionState.map (·.nextRolloutByteOffset)).getD 0

def nextRolloutOrdinal (db : HistoryDb) : Nat := (db.projectionState.map (·.nextRolloutOrdinal)).getD 0

/-- The transaction of `apply_projection`; `none` rolls it back. -/
def applyProjection (db : HistoryDb) (startOffset nextOffset : Nat) (projections : List ProjectedRolloutLine) :
    Option HistoryDb := do
  let startOffset ← sqliteInteger startOffset
  if db.nextRolloutByteOffset ≠ startOffset then none
  else
    let (rows, nextOrdinal) ← projections.foldlM applyLine (db, db.nextRolloutOrdinal)
    let nextOffset ← sqliteInteger nextOffset
    pure { rows with projectionState := some ⟨nextOffset, nextOrdinal⟩ }

end HistoryDb

/-! ## One call -/

section
variable (parser : LineParser)

/-- The rest of `materialize_to_sqlite` once the file and its session metadata are read. -/
def finish (db : HistoryDb) (startOffset nextOffset : Nat) (lines : List CompleteRolloutLine) (start : Option Nat) :
    Option HistoryDb := do
  let projections ← lines.mapM (projectLine parser start)
  db.applyProjection startOffset nextOffset projections

/-- `materialize_to_sqlite` of a file nobody else touches. -/
def materialize (file : Bytes) (db : HistoryDb) : Option HistoryDb := do
  let startOffset := db.nextRolloutByteOffset
  let (lines, nextOffset) ← readCompleteRolloutLines parser file startOffset
  if lines.isEmpty && startOffset == nextOffset then pure db
  else
    let start ← readSessionMetaLine parser file
    finish parser db startOffset nextOffset lines start

end

/-! ## Calls that interleave -/

/-- Where a call is. Each state holds what the call has read; `seen` is the newline-terminated part
of the file when it read it. -/
inductive MaterializePc where
  | ready
  | offsetRead (startOffset : Nat)
  | linesRead (seen : Bytes) (startOffset nextOffset : Nat) (lines : List CompleteRolloutLine)
  | metaRead (seen : Bytes) (startOffset nextOffset : Nat) (lines : List CompleteRolloutLine) (start : Option Nat)
  | returned (seen : Bytes)
  | failed
  deriving DecidableEq

structure History where
  file : Bytes := []
  db : HistoryDb := {}
  call : Nat → MaterializePc := fun _ => .ready
  /-- The lines that committed transactions have applied. -/
  applied : List CompleteRolloutLine := []

inductive Action where
  | append (bytes : Bytes)
  | call (i : Nat)
  | fail (i : Nat)

namespace History

def setCall (s : History) (i : Nat) (pc : MaterializePc) : History :=
  { s with call := fun j => if j = i then pc else s.call j }

/-- A call goes on to its next await. -/
def callStep (parser : LineParser) (s : History) (i : Nat) : History :=
  match s.call i with
  | .ready => s.setCall i (.offsetRead s.db.nextRolloutByteOffset)
  | .offsetRead startOffset =>
    match readCompleteRolloutLines parser s.file startOffset with
    | none => s.setCall i .failed
    | some (lines, nextOffset) =>
      if lines.isEmpty && startOffset == nextOffset then s.setCall i (.returned (Records.complete newline s.file))
      else s.setCall i (.linesRead (Records.complete newline s.file) startOffset nextOffset lines)
  | .linesRead seen startOffset nextOffset lines =>
    match readSessionMetaLine parser s.file with
    | none => s.setCall i .failed
    | some start => s.setCall i (.metaRead seen startOffset nextOffset lines start)
  | .metaRead seen startOffset nextOffset lines start =>
    match finish parser s.db startOffset nextOffset lines start with
    | none => s.setCall i .failed
    | some db => { s.setCall i (.returned seen) with db, applied := s.applied ++ lines }
  | .returned _ => s
  | .failed => s

/-- An I/O error ends a call that is under way. -/
def failStep (s : History) (i : Nat) : History :=
  match s.call i with
  | .returned _ => s
  | _ => s.setCall i .failed

def step (parser : LineParser) (s : History) : Action → History
  | .append bytes => { s with file := s.file ++ bytes }
  | .call i => s.callStep parser i
  | .fail i => s.failStep i

def run (parser : LineParser) (s : History) (actions : List Action) : History := actions.foldl (step parser) s

end History

end Codex.Projection
