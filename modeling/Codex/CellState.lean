/-
The state of a code-mode cell: a phase behind a mutex and the cell's
cancellation token. Whoever ends the cell first decides its outcome: a call that
terminates it, the session that cancels it, or its own completion, which writes
the session's stored values under the same lock.

Each operation takes the lock once and is one step here. A response channel is
known by who reads it; what was sent, and whether it arrived, is kept in `sent`.

Source: code-mode/src/cell_actor/types.rs (CellState), session_runtime/mod.rs
(RuntimeCellHost::commit_completion), cell_actor/mod.rs (finish_termination).
-/
import Mathlib.Data.List.AList
import Codex.JsonRpc
import Codex.Lib.Runs

namespace Codex.CellActor

open JsonRpc (Json)

inductive ImageDetail where
  | auto
  | low
  | high
  | original
  deriving DecidableEq

inductive OutputItem where
  | text (text : Text)
  | image (imageUrl : Text) (detail : Option ImageDetail)
  | audio (audioUrl : Text)
  deriving DecidableEq

inductive CellEvent where
  | yielded (contentItems : List OutputItem)
  | pending (contentItems : List OutputItem) (pendingToolCallIds : List Text)
  | completed (contentItems : List OutputItem) (errorText : Option Text)
  | terminated (contentItems : List OutputItem)
  deriving DecidableEq

inductive CellError where
  | busy
  | alreadyTerminating
  | closed
  deriving DecidableEq

inductive ObserveMode where
  | yieldAfter (duration : Nat)
  | pendingFrontier

/-- The sending half of a response channel: an observation's or a terminating call's. -/
inductive ResponseTx where
  | observation (id : Nat)
  | termination (id : Nat)
  deriving DecidableEq

structure Sent where
  tx : ResponseTx
  response : Except CellError CellEvent
  accepted : Bool

inductive CellPhase where
  | running
  | terminating (responseTx : ResponseTx)
  | completed (pendingInitialYieldItems : Option (List OutputItem)) (event : CellEvent)
  | completionClaimed (event : CellEvent)
  | tombstone

structure CellState where
  phase : CellPhase := .running
  cancelled : Bool := false

/-- The values a session's cells share. -/
abbrev StoredValues := AList fun _ : Text => Json

/-- `HashMap::extend` -/
def StoredValues.extend (values writes : StoredValues) : StoredValues := writes ∪ values

/-- A completion that was committed. -/
structure Commit where
  storedValueWrites : StoredValues
  event : CellEvent
  pendingInitialYieldItems : Option (List OutputItem)

/-- The cell, the stored values, and the response channels whose readers are gone. The commits and
whether a call asked for termination are kept beside, for what is said of a run. -/
structure World where
  cell : CellState := {}
  storedValues : StoredValues
  dropped : List ResponseTx := []
  sent : List Sent := []
  commits : List Commit := []
  terminationRequested : Bool := false

inductive CompletionCommit where
  | committed
  | rejected (event : CellEvent)

inductive CompletionDelivery where
  | delivered
  | buffered
  | rejected (responseTx : Option ResponseTx)

inductive ObservationDelivery where
  | running (responseTx : ResponseTx)
  | delivered
  | buffered
  | closed

def prependInitialYield (event : CellEvent) : Option (List OutputItem) → CellEvent
  | none => event
  | some pendingInitialYieldItems =>
    match event with
    | .yielded contentItems => .yielded (pendingInitialYieldItems ++ contentItems)
    | .pending contentItems pendingToolCallIds => .pending (pendingInitialYieldItems ++ contentItems) pendingToolCallIds
    | .completed contentItems errorText => .completed (pendingInitialYieldItems ++ contentItems) errorText
    | .terminated contentItems => .terminated (pendingInitialYieldItems ++ contentItems)

namespace World

def isOpen (w : World) (tx : ResponseTx) : Bool := !w.dropped.contains tx

def send (w : World) (tx : ResponseTx) (response : Except CellError CellEvent) : World :=
  { w with sent := w.sent ++ [{ tx, response, accepted := w.isOpen tx }] }

/-- A future that is ready at once: its caller has the response. -/
def reply (w : World) (tx : ResponseTx) (response : Except CellError CellEvent) : World :=
  { w with sent := w.sent ++ [{ tx, response, accepted := true }] }

def setPhase (w : World) (phase : CellPhase) : World := { w with cell := { w.cell with phase } }

def cancel (w : World) : World := { w with cell := { w.cell with cancelled := true } }

def acceptingObservations (w : World) : Bool :=
  (match w.cell.phase with
    | .running | .completed .. => true
    | .terminating _ | .completionClaimed _ | .tombstone => false) && !w.cell.cancelled

def requestTermination (w : World) (responseTx : ResponseTx) : World :=
  let w := { w with terminationRequested := true }
  match w.cell.phase with
  | .running => (w.setPhase (.terminating responseTx)).cancel
  | .terminating _ => w.reply responseTx (.error .alreadyTerminating)
  | .completed pendingInitialYieldItems event =>
    let event := prependInitialYield event pendingInitialYieldItems
    ((w.setPhase (.completionClaimed event)).cancel).reply responseTx (.ok event)
  | .completionClaimed _ => w.reply responseTx (.error .alreadyTerminating)
  | .tombstone => w.reply responseTx (.error .closed)

/-- `CellState::commit_completion`, its closure the one that extends the stored values. -/
def commitCompletion (w : World) (storedValueWrites : StoredValues) (event : CellEvent)
    (pendingInitialYieldItems : Option (List OutputItem)) : CompletionCommit × World :=
  match w.cell.phase, w.cell.cancelled with
  | .running, false =>
    (.committed, { w.setPhase (.completed pendingInitialYieldItems event) with
      storedValues := w.storedValues.extend storedValueWrites
      commits := w.commits ++ [{ storedValueWrites, event, pendingInitialYieldItems }] })
  | _, _ => (.rejected event, w)

/-- `RuntimeCellHost::commit_completion` once the lock of the stored values is free. -/
def hostCommitCompletion (w : World) (storedValueWrites : StoredValues) (event : CellEvent)
    (pendingInitialYieldItems : Option (List OutputItem)) : CompletionCommit × World :=
  if w.cell.cancelled then (.rejected event, w)
  else w.commitCompletion storedValueWrites event pendingInitialYieldItems

def deliverCompletion (w : World) (responseTx : Option ResponseTx) : CompletionDelivery × World :=
  match w.cell.phase with
  | .completed _ event =>
    match responseTx with
    | none => (.buffered, w)
    | some responseTx =>
      if w.isOpen responseTx then (.delivered, ((w.send responseTx (.ok event)).setPhase .tombstone).cancel)
      else (.buffered, w.send responseTx (.ok event))
  | _ => (.rejected responseTx, w)

def routeObservation (w : World) (mode : ObserveMode) (responseTx : ResponseTx) : ObservationDelivery × World :=
  match w.cell.phase with
  | .running => (.running responseTx, w)
  | .completed pendingInitialYieldItems event =>
    match pendingInitialYieldItems, mode with
    | some contentItems, .yieldAfter _ =>
      let sent := w.send responseTx (.ok (.yielded contentItems))
      (.buffered, if w.isOpen responseTx then sent.setPhase (.completed none event) else sent)
    | _, _ =>
      let sent := w.send responseTx (.ok (prependInitialYield event pendingInitialYieldItems))
      if w.isOpen responseTx then (.delivered, (sent.setPhase .tombstone).cancel) else (.buffered, sent)
  | .terminating _ | .completionClaimed _ | .tombstone => (.closed, w.send responseTx (.error .closed))

def finishTermination (w : World) (event : CellEvent) : Option CellEvent × World :=
  let finished := (w.setPhase .tombstone).cancel
  match w.cell.phase with
  | .running => (some event, finished)
  | .terminating responseTx => (some event, finished.send responseTx (.ok event))
  | .completed pendingInitialYieldItems event => (some (prependInitialYield event pendingInitialYieldItems), finished)
  | .completionClaimed completedEvent => (some completedEvent, finished)
  | .tombstone => (none, finished)

def tombstone (w : World) : World := (w.setPhase .tombstone).cancel

end World

/-- The actor's `finish_termination`: the observer is told as well. -/
def finishTermination (w : World) (observerTx : Option ResponseTx) (event : CellEvent) : World :=
  match w.finishTermination event with
  | (some event, w) =>
    match observerTx with
    | some observerTx => w.send observerTx (.ok event)
    | none => w
  | (none, w) => w

/-! ## Any order of the operations -/

inductive Action where
  | requestTermination (id : Nat)
  | commitCompletion (storedValueWrites : StoredValues) (contentItems : List OutputItem) (errorText : Option Text)
      (pendingInitialYieldItems : Option (List OutputItem))
  | deliverCompletion (observer : Option Nat)
  | routeObservation (mode : ObserveMode) (observer : Nat)
  | finishTermination (observer : Option Nat) (contentItems : List OutputItem)
  | tombstone
  | cancelSession
  | dropReceiver (tx : ResponseTx)

def step (w : World) : Action → World
  | .requestTermination id => w.requestTermination (.termination id)
  | .commitCompletion storedValueWrites contentItems errorText pendingInitialYieldItems =>
    (w.hostCommitCompletion storedValueWrites (.completed contentItems errorText) pendingInitialYieldItems).2
  | .deliverCompletion observer => (w.deliverCompletion (observer.map .observation)).2
  | .routeObservation mode observer => (w.routeObservation mode (.observation observer)).2
  | .finishTermination observer contentItems =>
    finishTermination w (observer.map .observation) (.terminated contentItems)
  | .tombstone => w.tombstone
  | .cancelSession => w.cancel
  | .dropReceiver tx => { w with dropped := tx :: w.dropped }

end Codex.CellActor
