/-
The rollout writer (`rollout/src/recorder.rs`, `rollout/src/ordinal.rs`). Items
wait in `pendingItems` and leave it once they are written; a failed write drops
the file handle, and the next barrier reopens the file, ends a torn last line
with a newline and retries once.

What the writer cannot know is the environment's: `io` answers its operations
in order, each of which may fail, and a failed record write leaves as much of
the line as the answer says. The `World` is the file and what an observer sees
from outside: the items handed over, how many of them were acknowledged, and
the file after every operation.
-/
import Codex.Protocol

namespace Codex

abbrev Bytes := List UInt8

def newline : UInt8 := 10

def ascii (text : String) : Bytes := text.toList.map fun c => UInt8.ofNat c.toNat

/-- `RolloutLine`, without its timestamp. -/
structure RolloutLine where
  ordinal : Option Nat
  item : RolloutItem

/-- The serialized lines: `serde_json` on `RolloutLineRef` and on `RolloutLine`. -/
structure LineCodec where
  encode : (timestamp : String) → (ordinal : Option Nat) → RolloutItem → Bytes
  parse : Bytes → Option RolloutLine
  /-- `line.trim().is_empty()` -/
  isBlank : Bytes → Bool

/-- The records that a reader finds in a file: its lines that parse, the last one terminated or not. -/
def LineCodec.records (codec : LineCodec) (file : Bytes) : List RolloutLine :=
  (file.splitOn newline).filterMap codec.parse

/-! ## Ordinals -/

inductive RolloutOrdinalState where
  | legacy
  | paginated (next : Option Nat)
  deriving DecidableEq

/-- `u64::checked_add(1)` -/
def nextOrdinal (ordinal : Nat) : Option Nat := if ordinal + 1 < 2 ^ 64 then some (ordinal + 1) else none

namespace RolloutOrdinalState

def forNewRollout : ThreadHistoryMode → RolloutOrdinalState
  | .legacy => .legacy
  | .paginated => .paginated (some 0)

def current : RolloutOrdinalState → Except String (Option Nat)
  | .legacy => .ok none
  | .paginated (some ordinal) => .ok (some ordinal)
  | .paginated none => .error "paginated rollout record ordinal overflow"

def advance : RolloutOrdinalState → RolloutOrdinalState
  | .legacy => .legacy
  | .paginated next => .paginated (next.bind nextOrdinal)

end RolloutOrdinalState

def readHistoryMetadata (codec : LineCodec) (file : Bytes) (path : String) :
    Except String (Option (ThreadHistoryMode × Option Nat)) :=
  match (file.splitOn newline).find? (!codec.isBlank ·) with
  | none => .ok none
  | some line =>
    match codec.parse line with
    | none => .error ("failed to parse first rollout record at " ++ path)
    | some { item := .sessionMeta line, .. } => .ok (some (line.historyMode, line.subagentHistoryStartOrdinal))
    | some _ => .error ("rollout at " ++ path ++ " does not start with session metadata")

/-- `ordinal_state_for_rollout`: its reverse scan skips the lines that do not parse. -/
def ordinalStateForRollout (codec : LineCodec) (file : Bytes) (path : String) : Except String RolloutOrdinalState := do
  match ← readHistoryMetadata codec file path with
  | none => .ok .legacy
  | some (.legacy, _) => .ok .legacy
  | some (.paginated, start) =>
    match (file.splitOn newline).reverse.findSome? codec.parse with
    | none => .error ("rollout at " ++ path ++ " contains no valid records")
    | some record =>
      match record.ordinal with
      | none => .error ("final paginated rollout record at " ++ path ++ " is missing an ordinal")
      | some ordinal =>
        -- `start.checked_sub(1)` is the last ordinal of the inherited prefix.
        if start.any (fun start => 0 < start && ordinal < start - 1) then
          .error ("paginated subagent rollout at " ++ path ++ " is incomplete: expected inherited prefix through ordinal "
            ++ toString (start.getD 0 - 1) ++ ", found final durable ordinal " ++ toString ordinal)
        else .ok (.paginated (nextOrdinal ordinal))

/-! ## The environment -/

/-- What the environment says to one operation. -/
structure IoAnswer where
  ok : Bool := true
  message : String := ""
  /-- How much of the line a failed write leaves: a proper prefix of the line and its newline. -/
  cut : Nat := 0
  timestamp : String := ""
  git : Option RawJson := none

/-- The file at one moment, with what was handed over and acknowledged by then. -/
structure Point where
  file : Bytes
  added : List RolloutItem
  acked : Nat

structure World where
  file : Bytes
  clock : Nat := 0
  added : List RolloutItem := []
  acked : Nat := 0
  points : List Point := []
  /-- The lines of the failed record writes, and how much of each was left. -/
  torn : List (Bytes × Nat) := []

namespace World

/-- An operation that leaves the file `file`. -/
def observe (w : World) (file : Bytes) : World :=
  { w with file, clock := w.clock + 1, points := w.points ++ [{ file, added := w.added, acked := w.acked }] }

def tear (w : World) (line : Bytes) (cut : Nat) : World := { w with torn := w.torn ++ [(line, cut)] }

def add (w : World) (items : List RolloutItem) : World := { w with added := w.added ++ items }

/-- An acknowledgement covers everything handed over before it. -/
def acknowledge (w : World) : World :=
  { w with acked := w.added.length, points := w.points ++ [{ file := w.file, added := w.added, acked := w.added.length }] }

end World

variable (codec : LineCodec) (io : Nat → IoAnswer)

/-- `ensure_rollout_is_newline_terminated`; its failed write may have left the newline. -/
def ensureRolloutIsNewlineTerminated (w : World) : Except String Unit × World :=
  if w.file = [] then (.ok (), w)
  else if w.file.getLast? = some newline then (.ok (), w)
  else
    let answer := io w.clock
    if answer.ok then (.ok (), w.observe (w.file ++ [newline]))
    else (.error answer.message, w.observe (if answer.cut = 0 then w.file else w.file ++ [newline]))

def openLogFile (w : World) : Except String Unit × World :=
  let answer := io w.clock
  if answer.ok then ensureRolloutIsNewlineTerminated io (w.observe w.file)
  else (.error answer.message, w.observe w.file)

/-- `JsonlWriter::write_line`, to the end of its `flush`. -/
def writeLine (line : Bytes) (w : World) : Except String Unit × World :=
  let answer := io w.clock
  if answer.ok then (.ok (), w.observe (w.file ++ (line ++ [newline])))
  else (.error answer.message, (w.observe (w.file ++ line.take answer.cut)).tear line answer.cut)

def writeRolloutItem (item : RolloutItem) (ordinal : Option Nat) (w : World) : Except String Unit × World :=
  writeLine io (codec.encode (io w.clock).timestamp ordinal item) w

/-! ## The writer -/

structure RolloutWriterState where
  writer : Bool
  deferredLogFileInfo : Bool
  pendingItems : List RolloutItem := []
  sessionMeta : Option SessionMeta
  ordinalState : RolloutOrdinalState
  lastLoggedError : Option String := none

/-- A writer that acts on the world. -/
abbrev WriterM := RolloutWriterState × World

namespace RolloutWriterState

def isDeferred (s : RolloutWriterState) : Bool := !s.writer && s.deferredLogFileInfo

def enterRecoveryMode (s : RolloutWriterState) (message : String) : RolloutWriterState :=
  { s with lastLoggedError := some message, writer := false }

def ensureWriterOpen (s : RolloutWriterState) (w : World) : Except String Unit × WriterM :=
  if s.writer then (.ok (), s, w)
  else
    match openLogFile io w with
    | (.ok (), w) => (.ok (), { s with writer := true, deferredLogFileInfo := false }, w)
    | (.error e, w) => (.error e, s, w)

/-- `write_session_meta_if_needed`, with `write_session_meta` -/
def writeSessionMetaIfNeeded (s : RolloutWriterState) (w : World) : Except String Unit × WriterM :=
  match s.sessionMeta with
  | none => (.ok (), s, w)
  | some sessionMeta =>
    if s.writer then
      match s.ordinalState.current with
      | .error e => (.error e, s, w)
      | .ok ordinal =>
        match writeRolloutItem codec io (.sessionMeta { sessionMeta with git := (io w.clock).git }) ordinal w with
        | (.ok (), w) => (.ok (), { s with ordinalState := s.ordinalState.advance, sessionMeta := none }, w)
        | (.error e, w) => (.error e, s, w)
    else (.ok (), { s with sessionMeta := none }, w)

/-- The loop of `write_pending_items_once`, over the items still to write. -/
def writeItems (s : RolloutWriterState) (w : World) : List RolloutItem → Except String Unit × WriterM
  | [] => (.ok (), { s with pendingItems := [] }, w)
  | item :: rest =>
    match s.ordinalState.current with
    | .error e => (.error e, { s with pendingItems := item :: rest }, w)
    | .ok ordinal =>
      match writeRolloutItem codec io item ordinal w with
      | (.ok (), w) => writeItems { s with ordinalState := s.ordinalState.advance } w rest
      | (.error e, w) => (.error e, { s with pendingItems := item :: rest }, w)

def writePendingItemsOnce (s : RolloutWriterState) (w : World) : Except String Unit × WriterM :=
  if s.writer then s.writeItems codec io w s.pendingItems
  else (.error "rollout writer is not open", s, w)

/-- `writer.file.flush()` -/
def flushFile (s : RolloutWriterState) (w : World) : Except String Unit × WriterM :=
  let answer := io w.clock
  (if answer.ok then .ok () else .error answer.message, s, w.observe w.file)

/-- One operation after another, until one fails. -/
def andThen (first : Except String Unit × WriterM)
    (next : RolloutWriterState → World → Except String Unit × WriterM) : Except String Unit × WriterM :=
  match first with
  | (.ok (), s, w) => next s w
  | (.error e, s, w) => (.error e, s, w)

def writePendingOnce (s : RolloutWriterState) (w : World) : Except String Unit × WriterM :=
  andThen (andThen (andThen (s.ensureWriterOpen io w) (writeSessionMetaIfNeeded codec io))
    (writePendingItemsOnce codec io)) (flushFile io)

def writePendingWithRecovery (s : RolloutWriterState) (w : World) : Except String Unit × WriterM :=
  match s.writePendingOnce codec io w with
  | (.ok (), s, w) => (.ok (), { s with lastLoggedError := none }, w)
  | (.error first, s, w) =>
    match (s.enterRecoveryMode first).writePendingOnce codec io w with
    | (.ok (), s, w) => (.ok (), { s with lastLoggedError := none }, w)
    | (.error second, s, w) => (.error second, s.enterRecoveryMode second, w)

def addItems (s : RolloutWriterState) (items : List RolloutItem) : RolloutWriterState :=
  { s with pendingItems := s.pendingItems ++ items }

def persist (s : RolloutWriterState) (w : World) : Except String Unit × WriterM :=
  s.writePendingWithRecovery codec io w

/-- `flush` and `shutdown` -/
def flush (s : RolloutWriterState) (w : World) : Except String Unit × WriterM :=
  if s.isDeferred && s.pendingItems.isEmpty then (.ok (), s, w) else s.writePendingWithRecovery codec io w

def shutdown (s : RolloutWriterState) (w : World) : Except String Unit × WriterM := s.flush codec io w

def flushIfMaterialized (s : RolloutWriterState) (w : World) : WriterM :=
  if s.isDeferred then (s, w)
  else
    match s.flush codec io w with
    | (.ok (), s, w) => (s, w)
    | (.error e, s, w) => (s.enterRecoveryMode e, w)

end RolloutWriterState

inductive RolloutCmd where
  | addItems (items : List RolloutItem)
  | persist
  | flush
  | shutdown

/-- Whether the loop goes on, and what it leaves. -/
abbrev LoopState := Bool × WriterM

/-- Sends the result of a barrier. -/
def acknowledged (result : Except String Unit × WriterM) : WriterM :=
  match result with
  | (.ok (), s, w) => (s, w.acknowledge)
  | (.error _, s, w) => (s, w)

/-- The body of `rollout_writer`'s loop. -/
def handleCmd (cmd : RolloutCmd) (s : RolloutWriterState) (w : World) : LoopState :=
  match cmd with
  | .addItems items => (true, (s.addItems items).flushIfMaterialized codec io (w.add items))
  | .persist => (true, acknowledged (s.persist codec io w))
  | .flush => (true, acknowledged (s.flush codec io w))
  | .shutdown => (!(s.shutdown codec io w).1.isOk, acknowledged (s.shutdown codec io w))

def rolloutWriter (s : RolloutWriterState) (w : World) : List RolloutCmd → WriterM
  | [] => (s, w)
  | cmd :: cmds =>
    match handleCmd codec io cmd s w with
    | (true, s, w) => rolloutWriter s w cmds
    | (false, s, w) => (s, w)

/-! ## Starting it -/

/-- `RolloutRecorderParams`: a new rollout, whose file does not exist yet, or an existing one. -/
inductive RolloutRecorderParams where
  | create (sessionMeta : SessionMeta)
  | resume (file : Bytes) (path : String)

/-- `RolloutRecorder::new`; a resumed rollout is opened by `open_rollout_for_append`. -/
def newRolloutRecorder : RolloutRecorderParams → Except String WriterM
  | .create sessionMeta => .ok
    ({ writer := false
       deferredLogFileInfo := true
       sessionMeta := some sessionMeta
       ordinalState := .forNewRollout sessionMeta.historyMode },
     { file := [] })
  | .resume file path =>
    match openLogFile io { file } with
    | (.error e, _) => .error e
    | (.ok (), w) => do
      let ordinalState ← ordinalStateForRollout codec w.file path
      .ok ({ writer := true, deferredLogFileInfo := false, sessionMeta := none, ordinalState }, w)

end Codex
