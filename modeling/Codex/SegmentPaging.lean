/-
Reading a forked thread's history in pages. `resolve_rollout_lineage`
(`thread-store/src/local/rollout_lineage.rs`) follows `history_base` pointers to
the physical rollouts a thread's history is made of, and `page_turn_rows` and
`page_item_rows` (`thread-store/src/local/thread_history/segment_paging.rs`) read
the rows of each in turn, up to the page size, from where a cursor
(`thread-store/src/local/thread_history/read.rs`) says.

The history database is `HistoryDb` for each thread. A `SELECT` is its `WHERE`
clause as a filter, its `ORDER BY` and its `LIMIT`. The JSON of a cursor is the
parameter `CursorCodec`. The two page functions are one definition over the table
they read.
-/
import Codex.HistoryProjection
import Codex.Lib.SeekPaging

namespace Codex.Paging

open Projection SeekPaging

abbrev ThreadId := String

inductive ThreadStoreError where
  | invalidRequest (message : String)
  | internal (message : String)
  deriving DecidableEq

/-! ## Lineages -/

structure HistoryPosition where
  threadId : ThreadId
  endOrdinalExclusive : Nat
  endByteOffset : Nat
  deriving DecidableEq

inductive ThreadHistoryMode where
  | legacy
  | paginated
  deriving DecidableEq

/-- Session metadata, by what a lineage is resolved from. -/
structure SessionMeta where
  id : ThreadId
  historyMode : ThreadHistoryMode
  historyBase : Option HistoryPosition
  deriving DecidableEq

/-- A rollout file of the store; reading its session metadata may fail. -/
structure RolloutFile where
  path : String
  sessionMeta : Except String SessionMeta
  length : Nat

/-- The files `resolve_rollout_path` finds, archived ones included. -/
abbrev Rollouts := List (ThreadId × RolloutFile)

structure RolloutLineageSegment where
  threadId : ThreadId
  rolloutPath : String
  «end» : Option HistoryPosition
  deriving DecidableEq

/-- `RolloutLineage`, by its segments. -/
abbrev RolloutLineage := List RolloutLineageSegment

namespace RolloutLineageSegment

def startOrdinal (_ : RolloutLineageSegment) : Nat := 1

def endOrdinal (segment : RolloutLineageSegment) : Option Nat := segment.end.map (·.endOrdinalExclusive)

end RolloutLineageSegment

def malformedLineage (threadId : ThreadId) (detail : String) : ThreadStoreError :=
  .invalidRequest ("invalid paginated history lineage for " ++ threadId ++ ": " ++ detail)

def validateCutoffBounds (requestedThreadId : ThreadId) (rollout : RolloutFile) (cutoff : HistoryPosition) :
    Except ThreadStoreError Unit :=
  if cutoff.endOrdinalExclusive = 0 then
    .error (malformedLineage requestedThreadId "cutoff cannot include source session metadata")
  else if rollout.length < cutoff.endByteOffset then
    .error (malformedLineage requestedThreadId "cutoff byte offset is past the source rollout")
  else .ok ()

/-- The checks `resolve_rollout_lineage` makes of a rollout before it is a segment. -/
def readSegment (rollouts : Rollouts) (requestedThreadId threadId : ThreadId) (cutoff : Option HistoryPosition) :
    Except ThreadStoreError (RolloutLineageSegment × Option HistoryPosition) :=
  match rollouts.lookup threadId with
  | none => .error (malformedLineage threadId "missing source rollout")
  | some rollout => match rollout.sessionMeta with
    | .error err => .error (.internal ("failed to read lineage metadata " ++ rollout.path ++ ": " ++ err))
    | .ok sessionMeta =>
      if sessionMeta.id ≠ threadId then
        .error (malformedLineage requestedThreadId "source rollout belongs to another thread")
      else if sessionMeta.historyMode ≠ .paginated then
        .error (malformedLineage requestedThreadId "source rollout is not paginated")
      else do
        match cutoff with
        | none => pure ()
        | some cutoff => validateCutoffBounds requestedThreadId rollout cutoff
        pure ({ threadId, rolloutPath := rollout.path, «end» := cutoff }, sessionMeta.historyBase)

/-- The loop of `resolve_rollout_lineage`. The segments are collected in front; `seen` holds their ids. Each round sees
another rollout of the store, which is its fuel. -/
def resolveLoop (rollouts : Rollouts) (requestedThreadId : ThreadId) :
    Nat → ThreadId → Option HistoryPosition → RolloutLineage → Except ThreadStoreError RolloutLineage
  | 0, _, _, _ => .error (malformedLineage requestedThreadId "cycle detected")
  | fuel + 1, threadId, cutoff, segments =>
    if segments.any (·.threadId = threadId) then .error (malformedLineage requestedThreadId "cycle detected")
    else match readSegment rollouts requestedThreadId threadId cutoff with
      | .error err => .error err
      | .ok (segment, none) => .ok (segment :: segments)
      | .ok (segment, some base) => resolveLoop rollouts requestedThreadId fuel base.threadId (some base) (segment :: segments)

def resolveRolloutLineage (rollouts : Rollouts) (requestedThreadId : ThreadId) : Except ThreadStoreError RolloutLineage :=
  resolveLoop rollouts requestedThreadId (rollouts.length + 1) requestedThreadId none []

def resolveRolloutLineageAt (rollouts : Rollouts) (cutoff : HistoryPosition) : Except ThreadStoreError RolloutLineage := do
  let segments ← resolveRolloutLineage rollouts cutoff.threadId
  match segments.getLast? with
  | none => .error (.internal "rollout lineage has no segments")
  | some segment => match rollouts.lookup segment.threadId with
    | none => .error (malformedLineage segment.threadId "missing source rollout")
    | some rollout =>
      validateCutoffBounds cutoff.threadId rollout cutoff
      pure (segments.dropLast ++ [{ segment with «end» := some cutoff }])

/-! ## Cursors -/

inductive CursorScope where
  | turns
  | items
  deriving DecidableEq

structure HistoryCursor where
  requestedThreadId : ThreadId
  physicalThreadId : ThreadId
  rolloutOrdinal : Nat
  includeAnchor : Bool
  scope : CursorScope
  deriving DecidableEq

structure PhysicalHistoryPosition where
  physicalThreadId : ThreadId
  rolloutOrdinal : Nat
  deriving DecidableEq

/-- `serde_json` on cursors. -/
structure CursorCodec where
  toString : HistoryCursor → String
  fromStr : String → Option HistoryCursor

def invalidCursor (cursor : String) : ThreadStoreError := .invalidRequest ("invalid cursor: " ++ cursor)

section
variable (codec : CursorCodec) (requestedThreadId : ThreadId) (scope : CursorScope)

def parseCursor : Option String → Except ThreadStoreError (Option HistoryCursor)
  | none => .ok none
  | some cursor => match codec.fromStr cursor with
    | none => .error (invalidCursor cursor)
    | some value =>
      if value.requestedThreadId ≠ requestedThreadId ∨ value.scope ≠ scope then .error (invalidCursor cursor)
      else .ok (some value)

def historyCursor (position : PhysicalHistoryPosition) (includeAnchor : Bool) : HistoryCursor :=
  { requestedThreadId
    physicalThreadId := position.physicalThreadId
    rolloutOrdinal := position.rolloutOrdinal
    includeAnchor, scope }

def serializeCursor (position : PhysicalHistoryPosition) (includeAnchor : Bool) : String :=
  codec.toString (historyCursor requestedThreadId scope position includeAnchor)

end

/-! ## Pages -/

inductive SortDirection where
  | asc
  | desc
  deriving DecidableEq

def pageSizeTooLarge : ThreadStoreError := .invalidRequest "page size is too large"

def validatePageSize (pageSize : Nat) : Except ThreadStoreError Unit :=
  if pageSize = 0 then .error (.invalidRequest "page size must be positive")
  else if (sqliteInteger (pageSize + 1)).isNone then .error pageSizeTooLarge
  else .ok ()

def cursorInSegment (cursor : HistoryCursor) (segment : RolloutLineageSegment) : Bool :=
  segment.startOrdinal ≤ cursor.rolloutOrdinal && !segment.endOrdinal.any (· ≤ cursor.rolloutOrdinal)

def segmentsFromCursor (lineage : RolloutLineage) (direction : SortDirection) (cursor : Option HistoryCursor) :
    Except ThreadStoreError (List (RolloutLineageSegment × Option HistoryCursor)) :=
  match cursor with
  | none => .ok ((match direction with
    | .asc => lineage
    | .desc => lineage.reverse).map (·, none))
  | some cursor => match lineage.findIdx? (·.threadId = cursor.physicalThreadId) with
    | none => .error (invalidCursor "unknown physical segment")
    | some index =>
      if !lineage[index]?.any (cursorInSegment cursor) then .error (invalidCursor "position outside physical segment")
      else
        let segments := match direction with
          | .asc => lineage.drop index
          | .desc => (lineage.take (index + 1)).reverse
        .ok (match segments with
          | [] => []
          | segment :: rest => (segment, some cursor) :: rest.map (·, none))

def remainingLimit (pageSize rowCount : Nat) : Except ThreadStoreError Nat :=
  if pageSize + 1 < rowCount then .error pageSizeTooLarge
  else match sqliteInteger (pageSize + 1 - rowCount) with
    | none => .error pageSizeTooLarge
    | some limit => .ok limit

def ordinalTooLarge : ThreadStoreError := .invalidRequest "rollout ordinal exceeds SQLite integer range"

/-- `sqlite_integer` of `segment_paging.rs` -/
def ordinalInteger (value : Nat) : Except ThreadStoreError Nat :=
  match sqliteInteger value with
  | none => .error ordinalTooLarge
  | some value => .ok value

/-- A table of the database as the page functions read it. -/
structure Table (ρ τ : Type) where
  scope : CursorScope
  /-- The rows of a thread that the `WHERE` clause keeps, ordinals apart. -/
  rows : HistoryDb → List ρ
  ordinal : ρ → Nat
  stored : ThreadId → ρ → τ
  position : τ → PhysicalHistoryPosition

structure SegmentPage (τ : Type) where
  rows : List τ
  nextCursor : Option String
  backwardsCursor : Option String
  deriving DecidableEq

/-- `push_segment_range` -/
def inSegment (segment : RolloutLineageSegment) (ordinal : Nat) : Bool :=
  segment.startOrdinal ≤ ordinal && !segment.endOrdinal.any (· ≤ ordinal)

/-- `push_cursor_clause` -/
def cursorClause (direction : SortDirection) (cursor : Option HistoryCursor) (ordinal : Nat) : Bool :=
  match cursor with
  | none => true
  | some cursor => match direction, cursor.includeAnchor with
    | .asc, true => cursor.rolloutOrdinal ≤ ordinal
    | .asc, false => cursor.rolloutOrdinal < ordinal
    | .desc, true => ordinal ≤ cursor.rolloutOrdinal
    | .desc, false => ordinal < cursor.rolloutOrdinal

section
variable {ρ τ : Type} (table : Table ρ τ)

/-- `ORDER BY rollout_ordinal` -/
def orderRows (direction : SortDirection) (rows : List ρ) : List ρ :=
  match direction with
  | .asc => orderBy table.ordinal rows
  | .desc => orderBy (fun row => OrderDual.toDual (table.ordinal row)) rows

/-- The integers a query binds. -/
def bindOrdinals (segment : RolloutLineageSegment) (cursor : Option HistoryCursor) : Except ThreadStoreError Unit := do
  let _ ← ordinalInteger segment.startOrdinal
  match segment.endOrdinal with
  | none => pure ()
  | some endOrdinal => let _ ← ordinalInteger endOrdinal
  match cursor with
  | none => pure ()
  | some cursor => let _ ← ordinalInteger cursor.rolloutOrdinal

/-- The rows of a segment that a query selects, before its limit. -/
def selectRows (db : ThreadId → HistoryDb) (direction : SortDirection) (segment : RolloutLineageSegment)
    (cursor : Option HistoryCursor) : List τ :=
  (orderRows table direction ((table.rows (db segment.threadId)).filter fun row =>
    inSegment segment (table.ordinal row) && cursorClause direction cursor (table.ordinal row))).map
      (table.stored segment.threadId)

/-- The loop over the segments. -/
def pageLoop (db : ThreadId → HistoryDb) (pageSize : Nat) (direction : SortDirection) :
    List (RolloutLineageSegment × Option HistoryCursor) → List τ → Except ThreadStoreError (List τ)
  | [], rows => .ok rows
  | (segment, cursor) :: rest, rows => do
    let remaining ← remainingLimit pageSize rows.length
    if remaining = 0 then .ok rows
    else
      bindOrdinals segment cursor
      pageLoop db pageSize direction rest (rows ++ (selectRows table db direction segment cursor).take remaining)

variable (codec : CursorCodec) (requestedThreadId : ThreadId)

def finishPage (rows : List τ) (pageSize : Nat) : SegmentPage τ :=
  let hasMore := pageSize < rows.length
  let rows := rows.take pageSize
  { rows
    nextCursor :=
      if hasMore then rows.getLast?.map fun row =>
        serializeCursor codec requestedThreadId table.scope (table.position row) false
      else none
    backwardsCursor := rows.head?.map fun row =>
      serializeCursor codec requestedThreadId table.scope (table.position row) true }

def pageRows (db : ThreadId → HistoryDb) (lineage : RolloutLineage) (cursor : Option String) (pageSize : Nat)
    (direction : SortDirection) : Except ThreadStoreError (SegmentPage τ) := do
  let cursor ← parseCursor codec requestedThreadId table.scope cursor
  let segments ← segmentsFromCursor lineage direction cursor
  let rows ← pageLoop table db pageSize direction segments []
  pure (finishPage table codec requestedThreadId rows pageSize)

end

/-! ## Turns and items -/

structure StoredTurnRow where
  position : PhysicalHistoryPosition
  turnId : String
  status : TurnStatus
  error : Option TurnError
  startedAt : Option Int
  completedAt : Option Int
  durationMs : Option Int
  firstUserItemId : Option String
  finalAgentItemId : Option String
  deriving DecidableEq

structure StoredThreadItem where
  turnId : String
  itemId : String
  createdAtMs : Int
  item : ThreadItem
  deriving DecidableEq

structure StoredThreadItemRow where
  position : PhysicalHistoryPosition
  item : StoredThreadItem
  deriving DecidableEq

def storedTurnRow (physicalThreadId : ThreadId) (row : TurnRow) : StoredTurnRow where
  position := { physicalThreadId, rolloutOrdinal := row.rolloutOrdinal }
  turnId := row.turnId
  status := row.status
  error := row.error
  startedAt := row.startedAt
  completedAt := row.completedAt
  durationMs := row.durationMs
  firstUserItemId := row.firstUserItemId
  finalAgentItemId := row.finalAgentItemId

def storedThreadItemRowForThread (physicalThreadId : ThreadId) (row : ItemRow) : StoredThreadItemRow where
  position := { physicalThreadId, rolloutOrdinal := row.rolloutOrdinal }
  item := { turnId := row.turnId, itemId := row.itemId, createdAtMs := row.createdAtMs, item := row.item }

def threadTurns : Table TurnRow StoredTurnRow where
  scope := .turns
  rows db := db.turns
  ordinal := TurnRow.rolloutOrdinal
  stored := storedTurnRow
  position := StoredTurnRow.position

def threadItems (turnId : Option String) : Table ItemRow StoredThreadItemRow where
  scope := .items
  rows db := db.items.filter fun row => turnId.all (row.turnId = ·)
  ordinal := ItemRow.rolloutOrdinal
  stored := storedThreadItemRowForThread
  position := StoredThreadItemRow.position

section
variable (codec : CursorCodec) (db : ThreadId → HistoryDb) (requestedThreadId : ThreadId) (lineage : RolloutLineage)

def pageTurnRows (cursor : Option String) (pageSize : Nat) (direction : SortDirection) :
    Except ThreadStoreError (SegmentPage StoredTurnRow) :=
  pageRows threadTurns codec requestedThreadId db lineage cursor pageSize direction

def pageItemRows (turnId : Option String) (cursor : Option String) (pageSize : Nat) (direction : SortDirection) :
    Except ThreadStoreError (SegmentPage StoredThreadItemRow) :=
  pageRows (threadItems turnId) codec requestedThreadId db lineage cursor pageSize direction

end

end Codex.Paging
