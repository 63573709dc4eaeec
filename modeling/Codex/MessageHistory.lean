/-
Bounded lookups in the message history (`message-history/src/batch.rs`). The
history is a file of one record a line. A lookup returns the newest rows up to
an offset, and a cursor for the rows before them; with the byte position of the
last page's oldest row the next lookup reads backward from there, else forward
from the start of the file.

Bytes counted are bytes of one file, so counts are natural numbers: no sum of
them reaches `u64::MAX`, where the source's additions saturate.
-/
import Codex.Lib.NewestPage
import Codex.Protocol

namespace Codex.MessageHistory

abbrev Bytes := List UInt8

def newline : UInt8 := 10

def historyReadBufferSize : Nat := 8192

def maxBatchRows : Nat := 128

def maxBatchBytes : Nat := 64 * 1024

def maxRetries : Nat := 10

inductive IoError where
  | notFound
  | unexpectedEof
  | wouldBlock
  | lock
  | notMaterialized
  deriving DecidableEq

structure HistoryEntry where
  sessionId : Text
  ts : Nat
  text : Text
  deriving DecidableEq

/-- `modified` is the time of the last modification, on a file system that has it. -/
structure HistoryFileRevision where
  len : Nat
  modified : Option Nat
  deriving DecidableEq

structure HistoryByteAnchor where
  position : Nat
  revision : HistoryFileRevision
  deriving DecidableEq

structure HistoryBatchCursor where
  endOffset : Nat
  byteAnchor : Option HistoryByteAnchor
  deriving DecidableEq

def HistoryBatchCursor.new (endOffset : Nat) : HistoryBatchCursor := { endOffset, byteAnchor := none }

structure HistoryBatchEntry where
  offset : Nat
  entry : Option HistoryEntry
  deriving DecidableEq

structure HistoryBatch where
  entries : List HistoryBatchEntry := []
  nextOlderCursor : Option HistoryBatchCursor := none
  deriving DecidableEq

structure RawHistoryBatchEntry where
  offset : Nat
  bytePosition : Nat
  byteLen : Nat
  bytes : Option Bytes
  deriving DecidableEq

structure HistoryConfig where
  maxBytes : Option Nat := none

/-- The file as a lookup finds it. -/
structure HistoryFile where
  bytes : Bytes
  modified : Option Nat
  logId : Option Nat

/-! ## What is retained -/

/-- `retain_row`, on the suffix and its bytes. -/
def retainRow (suffix : List RawHistoryBatchEntry × Nat) (entry : RawHistoryBatchEntry) : List RawHistoryBatchEntry × Nat :=
  if maxBatchBytes < entry.byteLen then ([entry], entry.byteLen)
  else NewestPage.popOver RawHistoryBatchEntry.byteLen maxBatchRows maxBatchBytes (suffix.1 ++ [entry])
    (suffix.2 + entry.byteLen)

/-- `retain_newest_row`: the entries and their bytes, and whether the scan goes on. -/
def retainNewestRow (entries : List RawHistoryBatchEntry) (entriesBytes : Nat) (entry : RawHistoryBatchEntry) :
    (List RawHistoryBatchEntry × Nat) × Bool :=
  if entries.isEmpty ∧ maxBatchBytes < entry.byteLen then ((entries ++ [entry], entriesBytes), false)
  else if entries.length = maxBatchRows ∨ maxBatchBytes < entriesBytes + entry.byteLen then ((entries, entriesBytes), false)
  else ((entries ++ [entry], entriesBytes + entry.byteLen), true)

/-! ## Pages -/

section
variable (fromSlice : Bytes → Option HistoryEntry)

/-- `slice::strip_suffix` of one byte, the slice itself where it does not end in it. -/
def stripSuffix (raw : Bytes) (byte : UInt8) : Bytes := if raw.getLast? = some byte then raw.dropLast else raw

def tryParseEntry (raw : Bytes) : Option HistoryEntry := fromSlice (stripSuffix (stripSuffix raw newline) 13)

/-- Seek and `read_exact`. -/
def readExact (file : Bytes) (position len : Nat) : Except IoError Bytes :=
  if position + len ≤ file.length then .ok ((file.drop position).take len) else .error .unexpectedEof

def finishBatch (entries : List RawHistoryBatchEntry) (revision : HistoryFileRevision) : Except IoError HistoryBatch := do
  let nextOlderCursor := entries.getLast?.bind fun entry =>
    if entry.offset = 0 then none
    else some
      { endOffset := entry.offset - 1
        byteAnchor := revision.modified.map fun _ => { position := entry.bytePosition, revision } }
  let entries ← entries.mapM fun raw =>
    match raw.bytes with
    | some bytes => .ok { offset := raw.offset, entry := tryParseEntry fromSlice bytes }
    | none => .error .notMaterialized
  return { entries, nextOlderCursor }

def materialize (file : Bytes) (entry : RawHistoryBatchEntry) : Except IoError RawHistoryBatchEntry :=
  match entry.bytes with
  | some _ => .ok entry
  | none => do
    let bytes ← readExact file entry.bytePosition entry.byteLen
    return { entry with bytes := some bytes }

def finishMaterializedBatch (file : Bytes) (entries : List RawHistoryBatchEntry) (revision : HistoryFileRevision) :
    Except IoError HistoryBatch := do
  let entries ← entries.mapM (materialize file)
  finishBatch fromSlice entries revision

/-! ## The forward scan -/

/-- The row a scan reads, and what is left to the reader. -/
structure ReadRow where
  byteLen : Nat
  bytes : Option Bytes
  reader : List Bytes

/-- `reader.consume(consumed)`, at the first of the reader's buffers. -/
def consume (buffer : Bytes) (consumed : Nat) (reader : List Bytes) : List Bytes :=
  if (buffer.drop consumed).isEmpty then reader else buffer.drop consumed :: reader

/-- The inner loop: the buffers up to the one with a newline. Each is what `fill_buf` returns, none empty; at the end
of the file there is none. -/
def readRow (byteLen : Nat) (bytes : Option Bytes) : List Bytes → ReadRow
  | [] => { byteLen, bytes, reader := [] }
  | buffer :: reader =>
    let newlineIndex := buffer.findIdx? (· == newline)
    let consumed := match newlineIndex with
      | some index => index + 1
      | none => buffer.length
    let byteLen := byteLen + consumed
    let bytes := bytes.bind fun buffered => if byteLen ≤ maxBatchBytes then some (buffered ++ buffer.take consumed) else none
    if newlineIndex.isSome then { byteLen, bytes, reader := consume buffer consumed reader }
    else readRow byteLen bytes reader

/-- The loop over the next rows of so many offsets. -/
def forwardRows (offset bytePosition : Nat) (suffix : List RawHistoryBatchEntry × Nat) :
    Nat → List Bytes → List RawHistoryBatchEntry
  | 0, _ => suffix.1
  | rows + 1, reader =>
    let row := readRow 0 (some []) reader
    if row.byteLen = 0 then suffix.1
    else
      forwardRows (offset + 1) (bytePosition + row.byteLen)
        (retainRow suffix { offset, bytePosition, byteLen := row.byteLen, bytes := row.bytes }) rows row.reader

def scanBatchForward (file : Bytes) (reader : List Bytes) (endOffset : Nat) (revision : HistoryFileRevision) :
    Except IoError HistoryBatch :=
  finishMaterializedBatch fromSlice file (forwardRows 0 0 ([], 0) (endOffset + 1) reader).reverse revision

/-! ## The backward scan -/

/-- The local variables of `scan_batch_backward`. -/
structure BackwardScan where
  entries : List RawHistoryBatchEntry := []
  entriesBytes : Nat := 0
  reversedRow : Option Bytes := some []
  rowByteLen : Nat := 0
  offset : Nat

/-- One byte, at its position in the file. An error is the return of the batch's entries. -/
def BackwardScan.step (s : BackwardScan) (byte : UInt8 × Nat) : Except (List RawHistoryBatchEntry) BackwardScan :=
  if byte.1 = newline ∧ 0 < s.rowByteLen then
    let raw : RawHistoryBatchEntry :=
      { offset := s.offset, bytePosition := byte.2 + 1, byteLen := s.rowByteLen, bytes := s.reversedRow.map List.reverse }
    let retained := retainNewestRow s.entries s.entriesBytes raw
    if retained.2 = false then .error retained.1.1
    else if s.offset = 0 then .error retained.1.1
    else .ok
      { entries := retained.1.1, entriesBytes := retained.1.2, reversedRow := some [newline], rowByteLen := 1,
        offset := s.offset - 1 }
  else .ok
    { s with
      rowByteLen := s.rowByteLen + 1
      reversedRow := s.reversedRow.bind fun bytes =>
        if s.rowByteLen + 1 ≤ maxBatchBytes then some (bytes ++ [byte.1]) else none }

/-- The outer loop, a block of the file at a time. -/
def BackwardScan.blocks (file : Bytes) (s : BackwardScan) (readEnd : Nat) :
    Except IoError (Except (List RawHistoryBatchEntry) BackwardScan) :=
  if readEnd = 0 then .ok (.ok s)
  else do
    let readStart := readEnd - historyReadBufferSize
    let readBuffer ← readExact file readStart (readEnd - readStart)
    match (readBuffer.zipIdx readStart).reverse.foldlM step s with
    | .error entries => return .error entries
    | .ok s => s.blocks file readStart
termination_by readEnd
decreasing_by
  simp only [historyReadBufferSize]
  omega

def BackwardScan.finish (s : BackwardScan) : List RawHistoryBatchEntry :=
  if 0 < s.rowByteLen then
    (retainNewestRow s.entries s.entriesBytes
      { offset := s.offset, bytePosition := 0, byteLen := s.rowByteLen, bytes := s.reversedRow.map List.reverse }).1.1
  else s.entries

def scanBatchBackward (file : Bytes) (endOffset endBytePosition : Nat) (revision : HistoryFileRevision) :
    Except IoError HistoryBatch := do
  match ← ({ offset := endOffset } : BackwardScan).blocks file endBytePosition with
  | .error entries => finishMaterializedBatch fromSlice file entries revision
  | .ok s => finishMaterializedBatch fromSlice file s.finish revision

/-! ## Lookups -/

def scanBatch (file : HistoryFile) (reader : List Bytes) (cursor : HistoryBatchCursor) (config : HistoryConfig) :
    Except IoError HistoryBatch :=
  let revision : HistoryFileRevision := { len := file.bytes.length, modified := file.modified }
  match cursor.byteAnchor.filter fun anchor => config.maxBytes.isNone && anchor.revision == revision with
  | some anchor => scanBatchBackward fromSlice file.bytes cursor.endOffset anchor.position revision
  | none => do
    let batch ← scanBatchForward fromSlice file.bytes reader cursor.endOffset revision
    if config.maxBytes.isSome then
      return { batch with nextOlderCursor := batch.nextOlderCursor.map fun next => { next with byteAnchor := none } }
    else return batch

inductive TryLock where
  | acquired
  | wouldBlock
  | failed
  deriving DecidableEq

/-- The attempts to lock the file, from the one with the index on. -/
def lockShared (tryLock : Nat → TryLock) (attempt : Nat) : Nat → Except IoError Unit
  | 0 => .error .wouldBlock
  | retries + 1 =>
    match tryLock attempt with
    | .acquired => .ok ()
    | .wouldBlock => lockShared tryLock (attempt + 1) retries
    | .failed => .error .lock

/-- `lookup_batch`; the file as it is opened, the buffers a forward scan of it would read and what the attempts to
lock it come to are given. -/
def lookupBatch (file : Option HistoryFile) (reader : List Bytes) (tryLock : Nat → TryLock) (logId : Nat)
    (cursor : HistoryBatchCursor) (config : HistoryConfig) : Except IoError HistoryBatch := do
  let some file := file | .error .notFound
  if logId ≠ 0 ∧ file.logId.getD 0 ≠ logId then return {}
  lockShared tryLock 0 maxRetries
  scanBatch fromSlice file reader cursor config

end

end Codex.MessageHistory
