/-
The events of one process on an exec server, and how a client keeps them in order. The
server numbers outputs, the exit and the close, sends each as a notification, and keeps
the last outputs for `process/read`. After a reconnect the client puts what it missed
together with what has arrived.

Source: exec-server/src/client.rs (OrderedSessionEvents, SessionState),
client_recovery.rs (recover_events), local_process.rs (exec_read),
exec-server-protocol/src/protocol.rs.
-/
import Codex.OrderedFrames
import Mathlib.Data.List.AList
import Mathlib.Data.List.Sort

namespace Codex.ProcessEvents

open NoiseRelay (ExecServerError)

abbrev Bytes := List UInt8

inductive ExecOutputStream where
  | stdout
  | stderr
  | pty
  deriving DecidableEq

structure ProcessOutputChunk where
  seq : Nat
  stream : ExecOutputStream
  chunk : Bytes
  deriving DecidableEq

inductive ExecProcessEvent where
  | output (chunk : ProcessOutputChunk)
  | exited (seq : Nat) (exitCode : Int) (sandboxDenied : Option Bool)
  | closed (seq : Nat)
  | failed (message : String)
  deriving DecidableEq

namespace ExecProcessEvent

def seq : ExecProcessEvent → Option Nat
  | .output chunk => some chunk.seq
  | .exited seq .. | .closed seq => some seq
  | .failed _ => none

def isExited : ExecProcessEvent → Bool
  | .exited .. => true
  | .output _ | .closed _ | .failed _ => false

def isClosed : ExecProcessEvent → Bool
  | .closed _ => true
  | .output _ | .exited .. | .failed _ => false

end ExecProcessEvent

structure ReadResponse where
  chunks : List ProcessOutputChunk
  nextSeq : Nat
  exited : Bool
  exitCode : Option Int
  closed : Bool
  failure : Option String
  sandboxDenied : Bool

/-! ## The server -/

/-- What `exec_read` looks at. -/
structure RunningProcess where
  output : List ProcessOutputChunk
  nextSeq : Nat
  exitCode : Option Int
  closed : Bool
  sandboxDenied : Bool

namespace RunningProcess

/-- The loop over the retained output: what is taken, and the number after it. -/
def takeChunks (maxBytes : Option Nat) :
    List ProcessOutputChunk → (taken : List ProcessOutputChunk) → (totalBytes nextSeq : Nat) → List ProcessOutputChunk × Nat
  | [], taken, _, nextSeq => (taken, nextSeq)
  | retained :: rest, taken, totalBytes, nextSeq =>
    let chunkLen := retained.chunk.length
    if !taken.isEmpty && maxBytes.any (· < totalBytes + chunkLen) then (taken, nextSeq)
    else if maxBytes.any (· ≤ totalBytes + chunkLen) then (taken ++ [retained], retained.seq + 1)
    else takeChunks maxBytes rest (taken ++ [retained]) (totalBytes + chunkLen) (retained.seq + 1)

/-- `exec_read` of a process in one state. -/
def read (p : RunningProcess) (afterSeq : Option Nat) (maxBytes : Option Nat) : ReadResponse :=
  let (chunks, nextSeq) := takeChunks maxBytes (p.output.filter (afterSeq.getD 0 < ·.seq)) [] 0 p.nextSeq
  { chunks
    nextSeq := if maxBytes.isNone then p.nextSeq else nextSeq
    exited := p.exitCode.isSome
    exitCode := p.exitCode
    closed := p.closed
    failure := none
    sandboxDenied := p.sandboxDenied }

end RunningProcess

/-! ## The client -/

def maxPendingProcessEvents : Nat := 256
def maxPendingProcessEventBytes : Nat := 1024 * 1024

abbrev Pending := AList fun _ : Nat => ExecProcessEvent

structure OrderedSessionEvents where
  lastPublishedSeq : Nat := 0
  exitPublished : Bool := false
  closedPublished : Bool := false
  pending : Pending := ∅
  pendingBytes : Nat := 0
  failure : Option String := none

/-- `events` is what was published, in order. -/
structure SessionState where
  ordered : OrderedSessionEvents := {}
  events : List ExecProcessEvent := []
  wake : Nat := 0

def pendingProcessEventBytes : ExecProcessEvent → Nat
  | .output chunk => chunk.chunk.length
  | .failed message => message.utf8ByteSize
  | .exited .. | .closed _ => 0

/-- `pending.range(lo..=hi)`, the numbers in order. -/
def rangeKeys (pending : Pending) (lo hi : Nat) : List Nat :=
  (pending.keys.filter fun seq => decide (lo ≤ seq ∧ seq ≤ hi)).insertionSort (· ≤ ·)

namespace OrderedSessionEvents

def insertPending (o : OrderedSessionEvents) (event : ExecProcessEvent) : Except String OrderedSessionEvents :=
  match event.seq with
  | none => .error "cannot reorder an unsequenced process event"
  | some seq =>
    if seq ∈ o.pending then .ok o
    else
      let closesGap := decide (seq = o.lastPublishedSeq + 1)
      let eventBytes := pendingProcessEventBytes event
      if !closesGap && maxPendingProcessEvents ≤ o.pending.entries.length then
        .error s!"process event reorder buffer exceeds {maxPendingProcessEvents} entries"
      else if maxPendingProcessEventBytes < eventBytes then
        .error s!"process event exceeds {maxPendingProcessEventBytes} bytes"
      else if !closesGap && maxPendingProcessEventBytes < o.pendingBytes + eventBytes then
        .error s!"process event reorder buffer exceeds {maxPendingProcessEventBytes} bytes"
      else .ok { o with pending := o.pending.insert seq event, pendingBytes := o.pendingBytes + eventBytes }

/-- The next event is taken from the buffer. -/
def takeNext (o : OrderedSessionEvents) (event : ExecProcessEvent) : OrderedSessionEvents :=
  { o with
    pending := o.pending.erase (o.lastPublishedSeq + 1)
    pendingBytes := o.pendingBytes - pendingProcessEventBytes event
    lastPublishedSeq := o.lastPublishedSeq + 1
    exitPublished := o.exitPublished || event.isExited
    closedPublished := o.closedPublished || event.isClosed }

/-- The sandbox flag of the first exit pending up to `target` takes in that of the response. -/
def notePendingExit (o : OrderedSessionEvents) (target : Nat) (sandboxDenied : Bool) : OrderedSessionEvents × Bool :=
  let firstExit := (rangeKeys o.pending 0 target).findSome? fun key =>
    match o.pending.lookup key with
    | some (.exited seq exitCode pendingSandboxDenied) => some (key, seq, exitCode, pendingSandboxDenied)
    | _ => none
  match firstExit with
  | some (key, seq, exitCode, pendingSandboxDenied) =>
    ({ o with
      pending := o.pending.insert key (.exited seq exitCode (some (pendingSandboxDenied.getD false || sandboxDenied))) }, true)
  | none => (o, false)

/-- The loop of `first_missing_seq`. -/
def firstMissingFrom (expected : Nat) : List Nat → Nat
  | [] => expected
  | seq :: rest => if seq = expected then firstMissingFrom (expected + 1) rest else expected

def firstMissingSeq (o : OrderedSessionEvents) (target : Nat) : Nat :=
  firstMissingFrom (o.lastPublishedSeq + 1) (rangeKeys o.pending (o.lastPublishedSeq + 1) target)

end OrderedSessionEvents

namespace SessionState

def noteChange (s : SessionState) (seq : Nat) : SessionState := { s with wake := max s.wake seq }

/-- `publish_ready`: each round takes one event from the buffer. -/
def publishRounds : Nat → SessionState → SessionState × Bool
  | 0, s => (s, false)
  | rounds + 1, s =>
    match s.ordered.pending.lookup (s.ordered.lastPublishedSeq + 1) with
    | none => (s, false)
    | some event =>
      let (s', publishedClosed) :=
        publishRounds rounds { s with ordered := s.ordered.takeNext event, events := s.events ++ [event] }
      (s', event.isClosed || publishedClosed)

def publishReady (s : SessionState) : SessionState × Bool := publishRounds s.ordered.pending.entries.length s

/-- `insert_pending` and then `publish_ready`. -/
def insertAndPublish (s : SessionState) (event : ExecProcessEvent) : SessionState × Except String Bool :=
  match s.ordered.insertPending event with
  | .error message => (s, .error message)
  | .ok ordered =>
    let (s, publishedClosed) := { s with ordered }.publishReady
    (s, .ok publishedClosed)

def publishOrderedEvent (s : SessionState) (event : ExecProcessEvent) : SessionState × Except String Bool :=
  match event.seq with
  | none => ({ s with events := s.events ++ [event] }, .ok false)
  | some seq =>
    if s.ordered.failure.isSome || s.ordered.closedPublished || decide (seq ≤ s.ordered.lastPublishedSeq) then (s, .ok false)
    else s.insertAndPublish event

def setFailure (s : SessionState) (message : String) : SessionState :=
  if s.ordered.failure.isSome || s.ordered.closedPublished then s
  else { s with
    ordered := { s.ordered with failure := some message, pending := ∅, pendingBytes := 0 }
    events := s.events ++ [.failed message]
    wake := s.wake + 1 }

/-- A notification: an event that could not be kept fails the session. -/
def handleNotification (s : SessionState) (event : ExecProcessEvent) : SessionState × Except String Bool :=
  match s.publishOrderedEvent event with
  | (s, .ok publishedClosed) => (s.noteChange (event.seq.getD 0), .ok publishedClosed)
  | (s, .error message) => (s.setFailure message, .error message)

end SessionState

/-! ## Recovery -/

def recoveryGapError (target : Nat) : ExecServerError :=
  .protocol s!"process events are no longer retained while recovering through sequence {target}"

def missingExitCode : ExecServerError := .protocol "recovering exited process did not include its exit code"

namespace SessionState

/-- Before a chunk that leaves a gap the exit is published, if the process has exited and it is not known. -/
def inferExit (response : ReadResponse) (s : SessionState) (chunk : ProcessOutputChunk) (exitKnown publishedClosed : Bool) :
    SessionState × Except ExecServerError (Bool × Bool) :=
  let nextSeq := s.ordered.lastPublishedSeq + 1
  if response.exited && !exitKnown && decide (nextSeq < chunk.seq) then
    match response.exitCode with
    | none => (s, .error missingExitCode)
    | some exitCode =>
      match s.insertAndPublish (.exited nextSeq exitCode (some response.sandboxDenied)) with
      | (s, .error message) => (s, .error (.protocol message))
      | (s, .ok closed) => (s, .ok (true, publishedClosed || closed))
  else (s, .ok (exitKnown, publishedClosed))

/-- The loop over the recovered chunks; it carries whether the exit is known. -/
def recoverChunks (response : ReadResponse) (target : Nat) :
    List ProcessOutputChunk → SessionState → (exitKnown publishedClosed : Bool) →
      SessionState × Except ExecServerError (Bool × Bool)
  | [], s, exitKnown, publishedClosed => (s, .ok (exitKnown, publishedClosed))
  | chunk :: rest, s, exitKnown, publishedClosed =>
    if target < chunk.seq then
      (s, .error (.protocol s!"recovered process output sequence {chunk.seq} exceeds target sequence {target}"))
    else
      match inferExit response s chunk exitKnown publishedClosed with
      | (s, .error error) => (s, .error error)
      | (s, .ok (exitKnown, publishedClosed)) =>
        if s.ordered.lastPublishedSeq < chunk.seq then
          match s.insertAndPublish (.output chunk) with
          | (s, .error message) => (s, .error (.protocol message))
          | (s, .ok closed) => recoverChunks response target rest s exitKnown (publishedClosed || closed)
        else recoverChunks response target rest s exitKnown publishedClosed

def closePending (o : OrderedSessionEvents) (target : Nat) : Bool :=
  match o.pending.lookup target with
  | some event => event.isClosed
  | none => false

/-- The close, where the response has it and the client does not. -/
def recoverClosed (s : SessionState) (response : ReadResponse) (target : Nat) : SessionState × Except ExecServerError Unit :=
  if response.closed && !s.ordered.closedPublished && !closePending s.ordered target then
    match s.ordered.insertPending (.closed target) with
    | .error message => (s, .error (.protocol message))
    | .ok ordered => ({ s with ordered }, .ok ())
  else (s, .ok ())

/-- The count of what is missing, and the exit in the one place left for it. -/
def recoverMissing (s : SessionState) (response : ReadResponse) (target : Nat) (exitKnown : Bool) :
    SessionState × Except ExecServerError Unit :=
  let eventCount := target - s.ordered.lastPublishedSeq
  let retainedCount := (rangeKeys s.ordered.pending (s.ordered.lastPublishedSeq + 1) target).length
  let missingCount := eventCount - retainedCount
  if response.exited && !exitKnown then
    if missingCount ≠ 1 then (s, .error (recoveryGapError target))
    else
      match response.exitCode with
      | none => (s, .error missingExitCode)
      | some exitCode =>
        match s.ordered.insertPending (.exited (s.ordered.firstMissingSeq target) exitCode (some response.sandboxDenied)) with
        | .error message => (s, .error (.protocol message))
        | .ok ordered => ({ s with ordered }, .ok ())
  else if missingCount ≠ 0 then (s, .error (recoveryGapError target))
  else (s, .ok ())

/-- Closed at the last number, yet something else is known to be there. -/
def closeConflicts (o : OrderedSessionEvents) (response : ReadResponse) (target : Nat) : Bool :=
  response.closed &&
    ((match o.pending.lookup target with
      | some event => !event.isClosed
      | none => false) || response.chunks.any (·.seq == target))

def recoverEvents (s : SessionState) (response : ReadResponse) : SessionState × Except ExecServerError Bool :=
  match response.failure with
  | some message => (s, .error (.protocol s!"process failed while recovering: {message}"))
  | none =>
    let target := response.nextSeq - 1
    if s.ordered.failure.isSome || s.ordered.closedPublished || decide (target ≤ s.ordered.lastPublishedSeq) then (s, .ok false)
    else
      let (ordered, exitPending) := s.ordered.notePendingExit target response.sandboxDenied
      let s := { s with ordered }
      if closeConflicts s.ordered response target then
        (s, .error (.protocol s!"process close sequence {target} conflicts with recovered output"))
      else
        match recoverChunks response target response.chunks s (s.ordered.exitPublished || exitPending) false with
        | (s, .error error) => (s, .error error)
        | (s, .ok (exitKnown, publishedClosed)) =>
          match s.recoverClosed response target with
          | (s, .error error) => (s, .error error)
          | (s, .ok ()) =>
            match s.recoverMissing response target exitKnown with
            | (s, .error error) => (s, .error error)
            | (s, .ok ()) =>
              let (s, closed) := s.publishReady
              (s.noteChange target, .ok (publishedClosed || closed))

end SessionState

end Codex.ProcessEvents
