/-
The actor of a code-mode cell: one task that takes the runtime's events and the session's
observations, holds the items put out until an observer takes them, and ends the cell.

The loop waits for whatever comes first; here any branch that is ready may be
taken. At an await inside a branch, and between two operations on the cell's
state, others take their steps: where the task stands then is its `Control`.
Callbacks and commands to the runtime touch none of this and are left out.

Source: code-mode/src/cell_actor/mod.rs (run_cell), cell_actor/types.rs
(CellHandle), cell_actor/conversions.rs (output_item).
-/
import Codex.CellState

namespace Codex.CellActor

inductive FunctionCallOutputContentItem where
  | inputText (text : Text)
  | inputImage (imageUrl : Text) (detail : Option ImageDetail)
  | inputAudio (audioUrl : Text)

def outputItem : FunctionCallOutputContentItem → OutputItem
  | .inputText text => .text text
  | .inputImage imageUrl detail => .image imageUrl detail
  | .inputAudio audioUrl => .audio audioUrl

inductive RuntimeEvent where
  | started
  | pending
  | contentItem (item : FunctionCallOutputContentItem)
  | yieldRequested
  | toolCall (id : Text)
  | notify
  | result (storedValueWrites : StoredValues) (errorText : Option Text)
  | threadPanicked

def RuntimeEvent.item : RuntimeEvent → Option OutputItem
  | .contentItem item => some (outputItem item)
  | _ => none

structure Observer where
  mode : ObserveMode
  responseTx : ResponseTx

/-- Where the task stands: at the select of the loop; in the callbacks' end; waiting for the stored values; between its
operations on the cell's state; after the loop; done. -/
inductive Control where
  | looping
  | cancelling
  | draining (storedValueWrites : StoredValues) (errorText : Option Text)
  | committing (storedValueWrites : StoredValues) (event : CellEvent)
  | delivering (rejectedEvent : Option CellEvent)
  | ending (responseTx : Option ResponseTx) (rejectedEvent : Option CellEvent)
  | closing
  | closed

structure Actor where
  contentItems : List OutputItem := []
  pendingToolCallIds : List Text := []
  pendingFrontierReady : Bool := false
  observer : Option Observer
  termination : Bool := false
  runtimeClosed : Bool := false
  runtimePaused : Bool := false
  yieldTimer : Bool := false
  commandRx : Bool := true
  control : Control := .looping

/-- The actor, the cell's state, and the two queues it reads. What the runtime put out and what
the actor has taken of it are kept beside. -/
structure System where
  world : World
  actor : Actor
  commands : List (ObserveMode × ResponseTx) := []
  handlesDropped : Bool := false
  events : List RuntimeEvent := []
  runtimeEnded : Bool := false
  emitted : List OutputItem := []
  processed : List OutputItem := []

def ObserveMode.isYieldAfter : ObserveMode → Bool
  | .yieldAfter _ => true
  | .pendingFrontier => false

def observerTimer (observer : Observer) : Bool := observer.mode.isYieldAfter

def sendCellEvent (w : World) (responseTx : ResponseTx) (event : CellEvent) : Except CellEvent Unit × World :=
  (if w.isOpen responseTx then .ok () else .error event, w.send responseTx (.ok event))

def sendObserverEvent (w : World) (observer : Option Observer) (event : CellEvent) : Except CellEvent Unit × World :=
  match observer with
  | some observer => sendCellEvent w observer.responseTx event
  | none => (.error event, w)

/-- The source panics on an event of another kind, which no caller hands it. -/
def restoreUndeliveredYield (delivery : Except CellEvent Unit) (contentItems : List OutputItem) : List OutputItem :=
  match delivery with
  | .error (.yielded undeliveredItems) => undeliveredItems ++ contentItems
  | _ => contentItems

def rejectedCompletionContent : Option CellEvent → List OutputItem
  | some (.completed contentItems _) => contentItems
  | _ => []

/-! ## The branches of the loop -/

namespace System

/-- The token is cancelled. -/
def takeCancelled (s : System) : System :=
  if s.actor.termination || !s.world.cell.cancelled then s
  else { s with
    actor := { s.actor with
      termination := true
      yieldTimer := false
      commandRx := false
      control := if s.actor.runtimeClosed then .cancelling else .looping }
    commands := [] }

/-- A yield to the observer, who gets all that is held; it comes back when the observer is gone. -/
def yieldToObserver (s : System) : System :=
  match sendObserverEvent s.world s.actor.observer (.yielded s.actor.contentItems) with
  | (delivery, world) => { s with
      world
      actor := { s.actor with
        yieldTimer := false
        observer := none
        contentItems := restoreUndeliveredYield delivery [] } }

/-- A pending event to the reader of `responseTx`, or to nobody. -/
def sendPending (s : System) (delivery : Except CellEvent Unit × World) : System :=
  match delivery with
  | (.error (.pending undeliveredItems undeliveredToolCallIds), world) => { s with
      world
      actor := { s.actor with
        contentItems := undeliveredItems
        pendingToolCallIds := undeliveredToolCallIds
        pendingFrontierReady := true } }
  | (_, world) => { s with
      world
      actor := { s.actor with
        contentItems := []
        pendingToolCallIds := []
        pendingFrontierReady := false } }

/-- An observer that is gone makes room for the next. -/
def dropGoneObserver (s : System) : System :=
  match s.actor.observer with
  | some observer =>
    if s.world.isOpen observer.responseTx then s
    else { s with actor := { s.actor with observer := none, yieldTimer := false } }
  | none => s

/-- An observation while the cell runs. -/
def observeRunning (s : System) (mode : ObserveMode) (responseTx : ResponseTx) : System :=
  if s.actor.observer.isSome || s.actor.termination then
    { s with world := s.world.send responseTx (.error .busy) }
  else if !mode.isYieldAfter && s.actor.pendingFrontierReady then
    s.sendPending (sendCellEvent s.world responseTx (.pending s.actor.contentItems s.actor.pendingToolCallIds))
  else
    let resumed := s.actor.runtimePaused && mode.isYieldAfter
    { s with actor := { s.actor with
        observer := some { mode, responseTx }
        yieldTimer := observerTimer { mode, responseTx }
        pendingFrontierReady := if resumed then false else s.actor.pendingFrontierReady
        pendingToolCallIds := if resumed then [] else s.actor.pendingToolCallIds
        -- a paused runtime goes on, whatever the mode
        runtimePaused := false } }

/-- On from `route_observation`. -/
def observed (s : System) (mode : ObserveMode) : ObservationDelivery × World → System
  | (.running responseTx, _) => s.dropGoneObserver.observeRunning mode responseTx
  | (.delivered, world) => { s with world, actor := { s.actor with control := .closing } }
  | (.buffered, world) | (.closed, world) => { s with world }

def takeCommand (s : System) : System :=
  if !s.actor.commandRx then s
  else match s.commands with
    | [] => if s.handlesDropped then { s with world := s.world.cancel } else s
    | (mode, responseTx) :: commands =>
      let s := { s with commands }
      if !s.world.isOpen responseTx then s
      else s.observed mode (s.world.routeObservation mode responseTx)

/-- The deadline of the timer is reached. -/
def takeTimer (s : System) : System := if s.actor.yieldTimer then s.yieldToObserver else s

/-- The end of the runtime, by its result or by the end of its events. -/
def runtimeClosed (s : System) (storedValueWrites : StoredValues) (errorText : Option Text) : System :=
  { s with actor := { s.actor with
      runtimeClosed := true
      control := if s.actor.termination || s.world.cell.cancelled then .cancelling
        else .draining storedValueWrites errorText } }

def takeRuntimeEvent (s : System) : RuntimeEvent → System
  | .started => { s with actor := { s.actor with yieldTimer := s.actor.observer.any observerTimer } }
  | .pending =>
    if s.actor.observer.any fun observer => !observer.mode.isYieldAfter then
      let paused := { s with actor := { s.actor with runtimePaused := true, yieldTimer := false, observer := none } }
      paused.sendPending
        (sendObserverEvent s.world s.actor.observer (.pending s.actor.contentItems s.actor.pendingToolCallIds))
    else { s with actor := { s.actor with pendingToolCallIds := [], runtimePaused := false } }
  | .contentItem item => { s with
      actor := { s.actor with contentItems := s.actor.contentItems ++ [outputItem item] }
      processed := s.processed ++ [outputItem item] }
  | .yieldRequested => if s.actor.observer.any fun observer => observer.mode.isYieldAfter then s.yieldToObserver else s
  | .toolCall id => { s with actor := { s.actor with pendingToolCallIds := s.actor.pendingToolCallIds ++ [id] } }
  | .result storedValueWrites errorText =>
    runtimeClosed { s with actor := { s.actor with yieldTimer := false } } storedValueWrites errorText
  | .notify | .threadPanicked => s

def takeEvent (s : System) : System :=
  if s.actor.runtimeClosed then s
  else match s.events with
    | [] => if s.runtimeEnded then s.runtimeClosed ∅ (some "exec runtime ended unexpectedly".toList) else s
    | event :: events => takeRuntimeEvent { s with events } event

/-- On from an await, or to the next operation on the cell's state. -/
def proceed (s : System) : System :=
  match s.actor.control with
  | .cancelling => { s with
      world := finishTermination s.world (s.actor.observer.map Observer.responseTx) (.terminated s.actor.contentItems)
      actor := { s.actor with observer := none, contentItems := [], control := .closing } }
  | .draining storedValueWrites errorText => { s with
      actor := { s.actor with
        contentItems := []
        control := .committing storedValueWrites (.completed s.actor.contentItems errorText) } }
  | .committing storedValueWrites event =>
    match s.world.hostCommitCompletion storedValueWrites event none with
    | (.committed, world) => { s with world, actor := { s.actor with control := .delivering none } }
    | (.rejected event, world) => { s with world, actor := { s.actor with control := .delivering (some event) } }
  | .delivering rejectedEvent =>
    let actor := { s.actor with observer := none }
    match s.world.deliverCompletion (s.actor.observer.map Observer.responseTx) with
    | (.delivered, world) => { s with world, actor := { actor with control := .closing } }
    | (.buffered, world) => { s with world, actor := { actor with control := .looping } }
    | (.rejected responseTx, world) => { s with world, actor := { actor with control := .ending responseTx rejectedEvent } }
  | .ending responseTx rejectedEvent => { s with
      world := finishTermination s.world responseTx (.terminated (rejectedCompletionContent rejectedEvent))
      actor := { s.actor with control := .closing } }
  | .closing => { s with
      world := s.world.tombstone
      actor := { s.actor with commandRx := false, control := .closed }
      commands := [] }
  | .looping | .closed => s

/-- The branches of the select are open while the task stands there. -/
def whenLooping (s : System) (branch : System → System) : System :=
  match s.actor.control with
  | .looping => branch s
  | _ => s

/-! ## The others -/

/-- The runtime puts out an event, until it has ended. -/
def emit (s : System) (event : RuntimeEvent) : System :=
  if s.runtimeEnded then s
  else { s with
    events := s.events ++ [event]
    emitted := s.emitted ++ event.item.toList }

def observe (s : System) (mode : ObserveMode) (responseTx : ResponseTx) : System :=
  if s.world.acceptingObservations && s.actor.commandRx then { s with commands := s.commands ++ [(mode, responseTx)] }
  else { s with world := s.world.reply responseTx (.error .closed) }

end System

inductive ActorAction where
  | emit (event : RuntimeEvent)
  | endRuntime
  | observe (mode : ObserveMode) (id : Nat)
  | terminate (id : Nat)
  | dropHandles
  | cancelSession
  | dropReceiver (tx : ResponseTx)
  | takeCancelled
  | takeCommand
  | takeTimer
  | takeEvent
  | proceed

def actorStep (s : System) : ActorAction → System
  | .emit event => s.emit event
  | .endRuntime => { s with runtimeEnded := true }
  | .observe mode id => if s.handlesDropped then s else s.observe mode (.observation id)
  | .terminate id => if s.handlesDropped then s else { s with world := s.world.requestTermination (.termination id) }
  | .dropHandles => { s with handlesDropped := true }
  | .cancelSession => { s with world := s.world.cancel }
  | .dropReceiver tx => { s with world := { s.world with dropped := tx :: s.world.dropped } }
  | .takeCancelled => s.whenLooping System.takeCancelled
  | .takeCommand => s.whenLooping System.takeCommand
  | .takeTimer => s.whenLooping System.takeTimer
  | .takeEvent => s.whenLooping System.takeEvent
  | .proceed => s.proceed

/-- The cell of a new actor with its first observer. -/
def startCell (storedValues : StoredValues) (initialObserveMode : ObserveMode) (id : Nat) : System where
  world := { storedValues }
  actor := { observer := some { mode := initialObserveMode, responseTx := .observation id } }

end Codex.CellActor
