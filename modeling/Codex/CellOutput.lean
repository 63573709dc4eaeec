/-
A cell's output is delivered in order, whole and once (`output_delivered`): what
observers took, with the terminal event, is what the actor had of the runtime.

At each point some list is owed (`Owes`): the items the actor has of the runtime are those
accepted and those held, in the buffer, in an event on its way to the cell's state, or in
the completed event that waits there.
-/
import Mathlib.Data.List.Chain
import Codex.CellActor
import Codex.CellOutcome

namespace Codex.CellActor

open Runs

/-! ## What was sent -/

def CellEvent.contentItems : CellEvent → List OutputItem
  | .yielded contentItems => contentItems
  | .pending contentItems _ => contentItems
  | .completed contentItems _ => contentItems
  | .terminated contentItems => contentItems

/-- The items that a yield or a pending event brought to an observer. -/
def Sent.interim (s : Sent) : List OutputItem :=
  match s.response, s.accepted with
  | .ok event, true => if event.isTerminal then [] else event.contentItems
  | _, _ => []

def Sent.attempt (s : Sent) : Option (Bool × List OutputItem) :=
  match s.response with
  | .ok event => some (s.accepted, event.contentItems)
  | .error _ => none

def accepted (sent : List Sent) : List OutputItem := sent.flatMap Sent.interim

def attempts (sent : List Sent) : List (Bool × List OutputItem) := sent.filterMap Sent.attempt

def told (sent : List Sent) : List (ResponseTx × CellEvent) := sent.filterMap Sent.terminal

/-- After an event whose reader was gone, the next one begins with its items. -/
def Reappears (attempts : List (Bool × List OutputItem)) : Prop :=
  attempts.IsChain fun attempt next => attempt.1 = false → attempt.2 <+: next.2

/-- The items of the last event, if its reader was gone, are the first of those held. -/
def Kept (attempts : List (Bool × List OutputItem)) (held : List OutputItem) : Prop :=
  ∀ attempt, attempts.getLast? = some attempt → attempt.1 = false → attempt.2 <+: held

structure Owes (sent : List Sent) (processed held : List OutputItem) : Prop where
  items : accepted sent ++ held = processed
  untold : told sent = []
  reappears : Reappears (attempts sent)
  kept : Kept (attempts sent) held

structure Told (sent : List Sent) (processed : List OutputItem) (event : CellEvent) : Prop where
  terminal : event.isTerminal = true
  items : accepted sent ++ event.contentItems = processed
  told : ∀ delivery ∈ told sent, delivery.2 = event
  reappears : Reappears (attempts sent)
  kept : Kept (attempts sent) event.contentItems

theorem accepted_concat (sent : List Sent) (s : Sent) : accepted (sent ++ [s]) = accepted sent ++ s.interim := by
  unfold accepted
  rw [List.flatMap_append, List.flatMap_singleton]

theorem attempts_event (sent : List Sent) (tx : ResponseTx) (event : CellEvent) (accepted : Bool) :
    attempts (sent ++ [{ tx, response := .ok event, accepted }]) = attempts sent ++ [(accepted, event.contentItems)] :=
  List.filterMap_append

theorem attempts_error (sent : List Sent) (tx : ResponseTx) (error : CellError) (accepted : Bool) :
    attempts (sent ++ [{ tx, response := .error error, accepted }]) = attempts sent := by
  unfold attempts
  rw [List.filterMap_append]
  exact List.append_nil _

theorem told_concat (sent : List Sent) (s : Sent) : told (sent ++ [s]) = told sent ++ s.terminal.toList :=
  terminals_concat { storedValues := ∅, sent } s

theorem interim_terminal {event} (h : event.isTerminal = true) (tx : ResponseTx) (accepted : Bool) :
    Sent.interim { tx, response := .ok event, accepted } = [] := by
  cases accepted with
  | true => exact if_pos h
  | false => rfl

theorem interim_accepted {event} (h : event.isTerminal = false) (tx : ResponseTx) :
    Sent.interim { tx, response := .ok event, accepted := true } = event.contentItems :=
  if_neg (Bool.eq_false_iff.1 h)

theorem terminal_interim {event} (h : event.isTerminal = false) (tx : ResponseTx) (accepted : Bool) :
    Sent.terminal { tx, response := .ok event, accepted } = none := by
  cases accepted with
  | true => exact if_neg (Bool.eq_false_iff.1 h)
  | false => rfl

theorem Reappears.next {attempts : List (Bool × List OutputItem)} {held : List OutputItem} (h : Reappears attempts)
    (hkept : Kept attempts held) (accepted : Bool) : Reappears (attempts ++ [(accepted, held)]) := by
  refine List.isChain_append.2 ⟨h, List.isChain_singleton _, ?_⟩
  intro attempt hattempt next hnext hgone
  obtain rfl : (accepted, held) = next := Option.some.inj hnext
  exact hkept attempt hattempt hgone

theorem kept_next (attempts : List (Bool × List OutputItem)) (accepted : Bool) {items held}
    (h : accepted = false → items <+: held) : Kept (attempts ++ [(accepted, items)]) held := by
  intro attempt hattempt hgone
  rw [List.getLast?_append, List.getLast?_singleton] at hattempt
  obtain rfl := Option.some.inj hattempt
  exact h hgone

namespace Owes

variable {sent : List Sent} {processed held : List OutputItem}

/-- New items of the runtime come after those held. -/
theorem push (h : Owes sent processed held) (items : List OutputItem) : Owes sent (processed ++ items) (held ++ items) := by
  refine ⟨?_, h.untold, h.reappears, ?_⟩
  · rw [← List.append_assoc, h.items]
  · intro attempt hattempt hgone
    exact (h.kept attempt hattempt hgone).trans (List.prefix_append ..)

theorem error (h : Owes sent processed held) (tx : ResponseTx) (error : CellError) (accepted : Bool) :
    Owes (sent ++ [{ tx, response := .error error, accepted }]) processed held := by
  refine ⟨?_, ?_, ?_, ?_⟩
  · rw [accepted_concat]
    exact (congrArg (· ++ held) (List.append_nil _)).trans h.items
  · rw [told_concat, h.untold]
    rfl
  · rw [attempts_error]
    exact h.reappears
  · rw [attempts_error]
    exact h.kept

variable {event : CellEvent}

/-- An event that does not end the cell takes what is held, or leaves it when its reader is gone. -/
theorem interim (h : Owes sent processed event.contentItems) (hevent : event.isTerminal = false)
    (tx : ResponseTx) (accepted : Bool) :
    Owes (sent ++ [{ tx, response := .ok event, accepted }]) processed (if accepted then [] else event.contentItems) := by
  refine ⟨?_, ?_, ?_, ?_⟩
  · rw [accepted_concat]
    cases accepted with
    | true =>
      rw [interim_accepted hevent, if_pos rfl, List.append_nil]
      exact h.items
    | false => exact (congrArg (· ++ event.contentItems) (List.append_nil _)).trans h.items
  · rw [told_concat, h.untold, terminal_interim hevent]
    rfl
  · rw [attempts_event]
    exact h.reappears.next h.kept accepted
  · rw [attempts_event]
    refine kept_next _ _ fun hgone => ?_
    have hleft : event.contentItems = if accepted then [] else event.contentItems :=
      (if_neg (ne_true_of_eq_false hgone)).symm
    exact ⟨[], (List.append_nil _).trans hleft⟩

theorem told (h : Owes sent processed event.contentItems) (hevent : event.isTerminal = true) :
    Told sent processed event := by
  refine ⟨hevent, h.items, ?_, h.reappears, h.kept⟩
  rw [h.untold]
  exact nofun

theorem unaccepted (h : Owes sent processed event.contentItems) (hevent : event.isTerminal = true)
    (tx : ResponseTx) : Owes (sent ++ [{ tx, response := .ok event, accepted := false }]) processed event.contentItems := by
  refine ⟨?_, ?_, ?_, ?_⟩
  · rw [accepted_concat, interim_terminal hevent, List.append_nil]
    exact h.items
  · rw [told_concat, h.untold]
    rfl
  · rw [attempts_event]
    exact h.reappears.next h.kept false
  · rw [attempts_event]
    exact kept_next _ _ fun _ => List.prefix_rfl

end Owes

namespace Told

variable {sent : List Sent} {processed : List OutputItem} {event : CellEvent}

theorem error (h : Told sent processed event) (tx : ResponseTx) (error : CellError) (accepted : Bool) :
    Told (sent ++ [{ tx, response := .error error, accepted }]) processed event := by
  refine ⟨h.terminal, ?_, ?_, ?_, ?_⟩
  · rw [accepted_concat]
    exact (congrArg (· ++ event.contentItems) (List.append_nil _)).trans h.items
  · rw [told_concat]
    intro delivery hdelivery
    exact h.told delivery ((List.append_nil (CellActor.told sent)) ▸ hdelivery)
  · rw [attempts_error]
    exact h.reappears
  · rw [attempts_error]
    exact h.kept

/-- The same event once more, to another reader. -/
theorem again (h : Told sent processed event) (tx : ResponseTx) (accepted : Bool) :
    Told (sent ++ [{ tx, response := .ok event, accepted }]) processed event := by
  refine ⟨h.terminal, ?_, ?_, ?_, ?_⟩
  · rw [accepted_concat, interim_terminal h.terminal, List.append_nil]
    exact h.items
  · rw [told_concat]
    intro delivery hdelivery
    rcases List.mem_append.1 hdelivery with hold | hnew
    · exact h.told delivery hold
    · rcases terminal_cases tx event accepted with hnone | hsome
      · rw [hnone] at hnew
        cases hnew
      · rw [hsome] at hnew
        rw [List.mem_singleton.1 hnew]
  · rw [attempts_event]
    exact h.reappears.next h.kept accepted
  · rw [attempts_event]
    exact kept_next _ _ fun _ => List.prefix_rfl

end Told

/-! ## What is owed where the task stands -/

/-- The items the actor holds: in a completed event it has not got rid of, or in its buffer. -/
def Actor.held (a : Actor) : List OutputItem :=
  match a.control with
  | .committing _ event | .delivering (some event) | .ending _ (some event) => event.contentItems
  | _ => a.contentItems

def CellEvent.IsCompleted (event : CellEvent) : Prop := ∃ contentItems errorText, event = .completed contentItems errorText

/-- Where the task may stand while no completion is committed. -/
def Control.BeforeCommit : Control → Prop
  | .looping | .cancelling | .draining .. => True
  | .committing _ event | .delivering (some event) | .ending _ (some event) => event.IsCompleted
  | .delivering none | .ending _ none | .closing | .closed => False

/-- Where it may stand when one is, and has not been delivered to the end. -/
def Control.AfterCommit : Control → Prop
  | .looping | .cancelling | .delivering none | .ending _ none => True
  | _ => False

/-- A committed cell in its loop waits for a command, the runtime closed and nobody observing. -/
def Actor.Waiting (a : Actor) : Prop :=
  a.control.AfterCommit ∧ (a.control = .looping → a.runtimeClosed = true ∧ a.observer = none)

def Ledger (actor : Actor) (sent : List Sent) (processed : List OutputItem) : CellPhase → Prop
  | .running | .terminating _ => actor.control.BeforeCommit ∧ Owes sent processed actor.held
  | .completed pendingInitialYieldItems event =>
    pendingInitialYieldItems = none ∧ event.isTerminal = true ∧ actor.Waiting ∧ Owes sent processed event.contentItems
  | .completionClaimed event => actor.Waiting ∧ Told sent processed event
  | .tombstone => (actor.control = .closing ∨ actor.control = .closed) ∧ ∃ event, Told sent processed event

/-- What the runtime put out is queued or processed, and what is processed is in the ledger. -/
structure Accounted (s : System) : Prop where
  queued : s.processed ++ s.events.filterMap RuntimeEvent.item = s.emitted
  ended : s.actor.control = .looping ∨ s.actor.runtimeClosed = true
  ledger : Ledger s.actor s.world.sent s.processed s.world.cell.phase

def CellPhase.isOpen : CellPhase → Bool
  | .running | .terminating _ => true
  | .completed .. | .completionClaimed _ | .tombstone => false

variable {w : World}

namespace Ledger

variable {actor : Actor} {sent : List Sent} {processed : List OutputItem} {phase : CellPhase}

theorem of_open (h : phase.isOpen = true) :
    Ledger actor sent processed phase ↔ actor.control.BeforeCommit ∧ Owes sent processed actor.held := by
  cases phase with
  | running | terminating => exact Iff.rfl
  | completed | completionClaimed | tombstone => cases h

/-- The actor goes on, and neither what was sent nor what it holds changes. -/
theorem withActor (h : Ledger actor sent processed phase) {actor'}
    (hbefore : actor.control.BeforeCommit → actor'.control.BeforeCommit ∧ actor'.held = actor.held)
    (hwaiting : actor.Waiting → actor'.Waiting)
    (hclosing : actor.control = .closing ∨ actor.control = .closed → actor'.control = .closing ∨ actor'.control = .closed) :
    Ledger actor' sent processed phase := by
  cases phase with
  | running | terminating =>
    obtain ⟨hcontrol, howes⟩ := h
    obtain ⟨hcontrol', hheld⟩ := hbefore hcontrol
    exact ⟨hcontrol', hheld ▸ howes⟩
  | completed => exact ⟨h.1, h.2.1, hwaiting h.2.2.1, h.2.2.2⟩
  | completionClaimed => exact ⟨hwaiting h.1, h.2⟩
  | tombstone => exact ⟨hclosing h.1, h.2⟩

/-- Where no completion can have been committed, and the cell has not ended, it is open. -/
theorem isOpen (h : Ledger actor sent processed phase) (hafter : ¬ actor.control.AfterCommit)
    (hcontrol : actor.control ≠ .closing ∧ actor.control ≠ .closed) : phase.isOpen = true := by
  cases phase with
  | running | terminating => rfl
  | completed => exact absurd h.2.2.1.1 hafter
  | completionClaimed => exact absurd h.1.1 hafter
  | tombstone =>
    rcases h.1 with hclosing | hclosed
    · exact absurd hclosing hcontrol.1
    · exact absurd hclosed hcontrol.2

theorem error (h : Ledger actor sent processed phase) (tx : ResponseTx) (error : CellError) (accepted : Bool) :
    Ledger actor (sent ++ [{ tx, response := .error error, accepted }]) processed phase := by
  cases phase with
  | running | terminating => exact ⟨h.1, h.2.error tx error accepted⟩
  | completed => exact ⟨h.1, h.2.1, h.2.2.1, h.2.2.2.error tx error accepted⟩
  | completionClaimed => exact ⟨h.1, h.2.error tx error accepted⟩
  | tombstone =>
    obtain ⟨hcontrol, event, htold⟩ := h
    exact ⟨hcontrol, event, htold.error tx error accepted⟩

theorem requestTermination (h : Ledger actor w.sent processed w.cell.phase) (responseTx : ResponseTx) :
    Ledger actor (w.requestTermination responseTx).sent processed (w.requestTermination responseTx).cell.phase := by
  unfold World.requestTermination
  dsimp only
  split
  next hphase =>
    rw [hphase] at h
    exact h
  next => exact h.error ..
  next pendingInitialYieldItems event hphase =>
    rw [hphase] at h
    obtain ⟨rfl, hterminal, hwaiting, howes⟩ := h
    exact ⟨hwaiting, (howes.told hterminal).again ..⟩
  next => exact h.error ..
  next => exact h.error ..

end Ledger

namespace Accounted

variable {s : System}

/-- In its loop the actor either holds all that is owed, or waits with nobody observing. -/
theorem looping (h : Accounted s) (hcontrol : s.actor.control = .looping) :
    (s.world.cell.phase.isOpen = true ∧ Owes s.world.sent s.processed s.actor.contentItems) ∨
      (s.world.cell.phase.isOpen = false ∧ s.actor.runtimeClosed = true ∧ s.actor.observer = none) := by
  have hledger := h.ledger
  have hheld : s.actor.held = s.actor.contentItems := by
    unfold Actor.held
    rw [hcontrol]
  cases hphase : s.world.cell.phase with
  | running | terminating =>
    rw [hphase] at hledger
    exact .inl ⟨rfl, hheld ▸ hledger.2⟩
  | completed =>
    rw [hphase] at hledger
    exact .inr ⟨rfl, hledger.2.2.1.2 hcontrol⟩
  | completionClaimed =>
    rw [hphase] at hledger
    exact .inr ⟨rfl, hledger.1.2 hcontrol⟩
  | tombstone =>
    rw [hphase] at hledger
    rcases hledger.1 with hclosing | hclosed
    · exact nomatch hcontrol.symm.trans hclosing
    · exact nomatch hcontrol.symm.trans hclosed

/-- A step of the actor in its loop while the cell is open: what it holds is what is owed. -/
theorem open_looping {s'} (hopen : s'.world.cell.phase.isOpen = true)
    (hcontrol : s'.actor.control = .looping) (hqueued : s'.processed ++ s'.events.filterMap RuntimeEvent.item = s'.emitted)
    (howes : Owes s'.world.sent s'.processed s'.actor.contentItems) : Accounted s' := by
  refine ⟨hqueued, .inl hcontrol, (Ledger.of_open hopen).2 ⟨?_, ?_⟩⟩
  · rw [hcontrol]
    trivial
  · unfold Actor.held
    rw [hcontrol]
    exact howes

theorem takeCancelled (h : Accounted s) (hcontrol : s.actor.control = .looping) : Accounted s.takeCancelled := by
  unfold System.takeCancelled
  split
  next => exact h
  next =>
    cases hclosed : s.actor.runtimeClosed with
    | true =>
      refine ⟨h.queued, .inr hclosed, h.ledger.withActor ?_ ?_ ?_⟩
      · intro _
        refine ⟨trivial, ?_⟩
        unfold Actor.held
        rw [hcontrol]
        rfl
      · intro _
        exact ⟨trivial, nofun⟩
      · rw [hcontrol]
        rintro (heq | heq) <;> cases heq
    | false =>
      rcases h.looping hcontrol with ⟨hopen, howes⟩ | ⟨-, hclosed', -⟩
      · exact open_looping hopen rfl h.queued howes
      · exact nomatch hclosed.symm.trans hclosed'

variable {actor : Actor}

/-- An event that does not end the cell, sent while it is open, with all that is held. -/
theorem interim (h : Accounted s) (hopen : s.world.cell.phase.isOpen = true) (hcontrol : s.actor.control = .looping)
    {event} (hevent : event.isTerminal = false) (hitems : event.contentItems = s.actor.contentItems)
    (tx : ResponseTx) (hcontrol' : actor.control = .looping)
    (hheld : actor.contentItems = if s.world.isOpen tx then [] else s.actor.contentItems) :
    Accounted { s with world := s.world.send tx (.ok event), actor } := by
  rcases h.looping hcontrol with ⟨-, howes⟩ | ⟨hclosed, -, -⟩
  · refine open_looping hopen hcontrol' h.queued ?_
    rw [← hitems] at howes
    have hinterim := howes.interim hevent tx (s.world.isOpen tx)
    rw [hitems, ← hheld] at hinterim
    exact hinterim
  · exact nomatch hopen.symm.trans hclosed

theorem withActor_looping (h : Accounted s) (hcontrol : s.actor.control = .looping)
    (hcontrol' : actor.control = .looping) (hitems : actor.contentItems = s.actor.contentItems)
    (hclosed : actor.runtimeClosed = s.actor.runtimeClosed) (hobserver : s.actor.observer = none → actor.observer = none) :
    Accounted { s with actor } := by
  refine ⟨h.queued, .inl hcontrol', h.ledger.withActor ?_ ?_ ?_⟩
  · intro _
    unfold Actor.held
    rw [hcontrol, hcontrol']
    exact ⟨trivial, hitems⟩
  · rintro ⟨-, hwaiting⟩
    obtain ⟨hended, hnone⟩ := hwaiting hcontrol
    unfold Actor.Waiting
    rw [hcontrol']
    exact ⟨trivial, fun _ => ⟨hclosed.trans hended, hobserver hnone⟩⟩
  · rw [hcontrol]
    rintro (heq | heq) <;> cases heq

theorem open_of_observer (h : Accounted s) (hcontrol : s.actor.control = .looping) {observer}
    (hobserver : s.actor.observer = some observer) : s.world.cell.phase.isOpen = true := by
  rcases h.looping hcontrol with ⟨hopen, -⟩ | ⟨-, -, hnone⟩
  · exact hopen
  · exact nomatch hobserver.symm.trans hnone

theorem yieldToObserver (h : Accounted s) (hcontrol : s.actor.control = .looping) : Accounted s.yieldToObserver := by
  unfold System.yieldToObserver
  cases hobserver : s.actor.observer with
  | none => exact h.withActor_looping hcontrol hcontrol (List.append_nil _) rfl fun _ => rfl
  | some observer =>
    have hopen := h.open_of_observer hcontrol hobserver
    refine h.interim hopen hcontrol rfl rfl observer.responseTx hcontrol ?_
    cases s.world.isOpen observer.responseTx with
    | true => rfl
    | false => exact List.append_nil _

theorem sendPending (h : Accounted s) (hopen : s.world.cell.phase.isOpen = true) (hcontrol : s.actor.control = .looping)
    (responseTx : ResponseTx) :
    Accounted (s.sendPending
      (sendCellEvent s.world responseTx (.pending s.actor.contentItems s.actor.pendingToolCallIds))) := by
  unfold System.sendPending sendCellEvent
  cases haccepted : s.world.isOpen responseTx with
  | true =>
    refine h.interim hopen hcontrol rfl rfl responseTx hcontrol ?_
    rw [haccepted]
    rfl
  | false =>
    refine h.interim hopen hcontrol rfl rfl responseTx hcontrol ?_
    rw [haccepted]
    rfl

theorem dropGoneObserver (h : Accounted s) (hcontrol : s.actor.control = .looping) :
    Accounted s.dropGoneObserver ∧ s.dropGoneObserver.actor.control = .looping ∧ s.dropGoneObserver.world = s.world := by
  unfold System.dropGoneObserver
  split
  next =>
    split
    next => exact ⟨h, hcontrol, rfl⟩
    next => exact ⟨h.withActor_looping hcontrol hcontrol rfl rfl fun _ => rfl, hcontrol, rfl⟩
  next => exact ⟨h, hcontrol, rfl⟩

/-- A response that is no event leaves the ledger as it is. -/
theorem error (h : Accounted s) (tx : ResponseTx) (error : CellError) :
    Accounted { s with world := s.world.send tx (.error error) } :=
  ⟨h.queued, h.ended, h.ledger.error tx error _⟩

theorem observeRunning (h : Accounted s) (hopen : s.world.cell.phase.isOpen = true) (hcontrol : s.actor.control = .looping)
    (mode : ObserveMode) (responseTx : ResponseTx) : Accounted (s.observeRunning mode responseTx) := by
  unfold System.observeRunning
  split
  next => exact h.error responseTx .busy
  next =>
    split
    next => exact h.sendPending hopen hcontrol responseTx
    next =>
      rcases h.looping hcontrol with ⟨-, howes⟩ | ⟨hclosed, -, -⟩
      · exact open_looping hopen hcontrol h.queued howes
      · exact nomatch hopen.symm.trans hclosed

theorem observed (h : Accounted s) (hcontrol : s.actor.control = .looping) (mode : ObserveMode) (responseTx : ResponseTx) :
    Accounted (s.observed mode (s.world.routeObservation mode responseTx)) := by
  have hledger := h.ledger
  unfold World.routeObservation
  cases hphase : s.world.cell.phase with
  | running =>
    obtain ⟨hroom, hcontrol', hworld⟩ := h.dropGoneObserver hcontrol
    refine hroom.observeRunning ?_ hcontrol' mode responseTx
    rw [hworld, hphase]
    rfl
  | terminating | completionClaimed | tombstone => exact h.error responseTx .closed
  | completed pendingInitialYieldItems event =>
    rw [hphase] at hledger
    obtain ⟨rfl, hterminal, hwaiting, howes⟩ := hledger
    cases haccepted : s.world.isOpen responseTx with
    | true =>
      refine ⟨h.queued, .inr (hwaiting.2 hcontrol).1, .inl rfl, event, ?_⟩
      exact (howes.told hterminal).again responseTx _
    | false =>
      refine ⟨h.queued, h.ended, ?_⟩
      show Ledger s.actor (s.world.sent ++ [_]) s.processed s.world.cell.phase
      rw [hphase, haccepted]
      exact ⟨rfl, hterminal, hwaiting, howes.unaccepted hterminal responseTx⟩

theorem takeCommand (h : Accounted s) (hcontrol : s.actor.control = .looping) : Accounted s.takeCommand := by
  unfold System.takeCommand
  split
  next => exact h
  next =>
    split
    next =>
      split
      next => exact ⟨h.queued, h.ended, h.ledger⟩
      next => exact h
    next mode responseTx commands _ =>
      have htaken : Accounted { s with commands } := ⟨h.queued, h.ended, h.ledger⟩
      dsimp only
      split
      next => exact htaken
      next => exact htaken.observed hcontrol mode responseTx

theorem takeTimer (h : Accounted s) (hcontrol : s.actor.control = .looping) : Accounted s.takeTimer := by
  unfold System.takeTimer
  split
  next => exact h.yieldToObserver hcontrol
  next => exact h

/-- The runtime has ended: the actor goes to the callbacks, and still holds its buffer. -/
theorem runtimeClosed (h : Accounted s) (hcontrol : s.actor.control = .looping) (hrunning : s.actor.runtimeClosed = false)
    (storedValueWrites : StoredValues) (errorText : Option Text) :
    Accounted (s.runtimeClosed storedValueWrites errorText) := by
  rcases h.looping hcontrol with ⟨hopen, howes⟩ | ⟨-, hclosed, -⟩
  · refine ⟨h.queued, .inr rfl, (Ledger.of_open hopen).2 ?_⟩
    unfold System.runtimeClosed
    cases s.actor.termination || s.world.cell.cancelled with
    | true => exact ⟨trivial, howes⟩
    | false => exact ⟨trivial, howes⟩
  · exact nomatch hrunning.symm.trans hclosed

theorem takeRuntimeEvent (h : Accounted s) (hcontrol : s.actor.control = .looping) (hrunning : s.actor.runtimeClosed = false)
    {event} (hitem : event.item = none) : Accounted (s.takeRuntimeEvent event) := by
  cases event with
  | contentItem item => cases hitem
  | notify | threadPanicked => exact h
  | started | toolCall => exact h.withActor_looping hcontrol hcontrol rfl rfl id
  | pending =>
    unfold System.takeRuntimeEvent
    dsimp only
    split
    next hfrontier =>
      cases hobserver : s.actor.observer with
      | none =>
        rw [hobserver] at hfrontier
        cases hfrontier
      | some observer =>
        have hopen := h.open_of_observer hcontrol hobserver
        have hpaused : Accounted
            { s with actor := { s.actor with runtimePaused := true, yieldTimer := false, observer := none } } :=
          h.withActor_looping hcontrol hcontrol rfl rfl fun _ => rfl
        exact hpaused.sendPending hopen hcontrol observer.responseTx
    next => exact h.withActor_looping hcontrol hcontrol rfl rfl id
  | yieldRequested =>
    unfold System.takeRuntimeEvent
    dsimp only
    split
    next => exact h.yieldToObserver hcontrol
    next => exact h
  | result storedValueWrites errorText =>
    have htimer : Accounted { s with actor := { s.actor with yieldTimer := false } } :=
      h.withActor_looping hcontrol hcontrol rfl rfl id
    exact htimer.runtimeClosed hcontrol hrunning storedValueWrites errorText

theorem takeEvent (h : Accounted s) (hcontrol : s.actor.control = .looping) : Accounted s.takeEvent := by
  unfold System.takeEvent
  split
  next => exact h
  next hclosed =>
    have hrunning := Bool.eq_false_iff.2 hclosed
    split
    next =>
      split
      next => exact h.runtimeClosed hcontrol hrunning ..
      next => exact h
    next event events hevents =>
      have hqueued := h.queued
      rw [hevents] at hqueued
      cases hitem : event.item with
      | none =>
        rw [List.filterMap_cons_none hitem] at hqueued
        have htaken : Accounted { s with events } := ⟨hqueued, h.ended, h.ledger⟩
        exact htaken.takeRuntimeEvent hcontrol hrunning hitem
      | some =>
        cases event with
        | contentItem item =>
          rcases h.looping hcontrol with ⟨hopen, howes⟩ | ⟨-, hended, -⟩
          · refine open_looping hopen hcontrol ?_ (howes.push [outputItem item])
            show (s.processed ++ [outputItem item]) ++ events.filterMap RuntimeEvent.item = s.emitted
            rw [List.append_assoc]
            exact hqueued
          · exact nomatch hrunning.symm.trans hended
        | started | pending | yieldRequested | toolCall | notify | result | threadPanicked => cases hitem

/-- The end of a cell that had not ended has an event, with all that is owed. -/
theorem told_finishTermination {processed}
    (h : Ledger actor w.sent processed w.cell.phase) (hcontrol : actor.control ≠ .closing ∧ actor.control ≠ .closed)
    {contentItems} (hitems : w.cell.phase.isOpen = true → contentItems = actor.held) :
    ∃ event, (w.finishTermination (.terminated contentItems)).1 = some event ∧
      Told (w.finishTermination (.terminated contentItems)).2.sent processed event := by
  unfold World.finishTermination
  cases hphase : w.cell.phase with
  | running =>
    rw [hphase] at h hitems
    obtain rfl := hitems rfl
    have howes : Owes w.sent processed (CellEvent.terminated actor.held).contentItems := h.2
    exact ⟨_, rfl, howes.told rfl⟩
  | terminating responseTx =>
    rw [hphase] at h hitems
    obtain rfl := hitems rfl
    have howes : Owes w.sent processed (CellEvent.terminated actor.held).contentItems := h.2
    exact ⟨_, rfl, (howes.told rfl).again responseTx _⟩
  | completed pendingInitialYieldItems event =>
    rw [hphase] at h
    obtain ⟨rfl, hterminal, -, howes⟩ := h
    exact ⟨_, rfl, howes.told hterminal⟩
  | completionClaimed completedEvent =>
    rw [hphase] at h
    exact ⟨_, rfl, h.2⟩
  | tombstone =>
    rw [hphase] at h
    rcases h.1 with hclosing | hclosed
    · exact absurd hclosing hcontrol.1
    · exact absurd hclosed hcontrol.2

/-- The end of the cell is told to the reader the phase holds and to `observerTx`. -/
theorem finishTermination {actor' processed}
    (h : Ledger actor w.sent processed w.cell.phase) (hcontrol : actor.control ≠ .closing ∧ actor.control ≠ .closed)
    (observerTx : Option ResponseTx) {contentItems}
    (hitems : w.cell.phase.isOpen = true → contentItems = actor.held) (hcontrol' : actor'.control = .closing) :
    Ledger actor' (finishTermination w observerTx (.terminated contentItems)).sent processed
      (finishTermination w observerTx (.terminated contentItems)).cell.phase := by
  obtain ⟨event, hevent, htold⟩ := told_finishTermination h hcontrol hitems
  have hphase := Sound.phase_finishTermination w (.terminated contentItems)
  unfold CellActor.finishTermination
  split
  next event' w' heq =>
    rw [heq] at hevent htold hphase
    obtain rfl := Option.some.inj hevent
    cases observerTx with
    | none =>
      rw [hphase]
      exact ⟨.inl hcontrol', event', htold⟩
    | some observerTx =>
      show Ledger actor' (w'.sent ++ [_]) processed w'.cell.phase
      rw [hphase]
      exact ⟨.inl hcontrol', event', htold.again observerTx _⟩
  next w' heq =>
    rw [heq] at hevent
    cases hevent

theorem runtime_closed (h : Accounted s) (hcontrol : s.actor.control ≠ .looping) : s.actor.runtimeClosed = true :=
  h.ended.resolve_left hcontrol

theorem cancelling (h : Accounted s) (hcontrol : s.actor.control = .cancelling) : Accounted s.proceed := by
  have hended := h.runtime_closed (by rw [hcontrol]; exact nofun)
  unfold System.proceed
  rw [hcontrol]
  refine ⟨h.queued, .inr hended, finishTermination h.ledger ?_ _ ?_ rfl⟩
  · rw [hcontrol]
    exact ⟨nofun, nofun⟩
  · intro _
    unfold Actor.held
    rw [hcontrol]

theorem draining (h : Accounted s) {storedValueWrites errorText}
    (hcontrol : s.actor.control = .draining storedValueWrites errorText) : Accounted s.proceed := by
  have hended := h.runtime_closed (by rw [hcontrol]; exact nofun)
  unfold System.proceed
  rw [hcontrol]
  refine ⟨h.queued, .inr hended, h.ledger.withActor ?_ ?_ ?_⟩
  · intro _
    refine ⟨⟨s.actor.contentItems, errorText, rfl⟩, ?_⟩
    unfold Actor.held
    rw [hcontrol]
    rfl
  · rintro ⟨hafter, -⟩
    rw [hcontrol] at hafter
    cases hafter
  · rw [hcontrol]
    rintro (heq | heq) <;> cases heq

theorem committing (h : Accounted s) {storedValueWrites event}
    (hcontrol : s.actor.control = .committing storedValueWrites event) : Accounted s.proceed := by
  have hended := h.runtime_closed (by rw [hcontrol]; exact nofun)
  have hopen : s.world.cell.phase.isOpen = true := by
    refine h.ledger.isOpen ?_ ?_
    · rw [hcontrol]
      exact id
    · rw [hcontrol]
      exact ⟨nofun, nofun⟩
  obtain ⟨hcompleted, howes⟩ := (Ledger.of_open hopen).1 h.ledger
  unfold Actor.held at howes
  rw [hcontrol] at hcompleted howes
  have hrejected : Accounted { s with actor := { s.actor with control := .delivering (some event) } } :=
    ⟨h.queued, .inr hended, (Ledger.of_open hopen).2 ⟨hcompleted, howes⟩⟩
  unfold System.proceed
  rw [hcontrol]
  dsimp only
  rw [hostCommitCompletion_eq]
  unfold World.commitCompletion
  cases hphase : s.world.cell.phase with
  | running =>
    cases s.world.cell.cancelled with
    | false =>
      obtain ⟨contentItems, errorText, rfl⟩ := hcompleted
      exact ⟨h.queued, .inr hended, rfl, rfl, ⟨trivial, nofun⟩, howes⟩
    | true => exact hrejected
  | terminating => exact hrejected
  | completed | completionClaimed | tombstone =>
    rw [hphase] at hopen
    cases hopen

theorem delivering (h : Accounted s) {rejectedEvent}
    (hcontrol : s.actor.control = .delivering rejectedEvent) : Accounted s.proceed := by
  have hended := h.runtime_closed (by rw [hcontrol]; exact nofun)
  have hledger := h.ledger
  have hrejected : Accounted { s with actor := { s.actor with
      observer := none, control := .ending (s.actor.observer.map Observer.responseTx) rejectedEvent } } := by
    refine ⟨h.queued, .inr hended, hledger.withActor ?_ ?_ ?_⟩
    · intro hbefore
      rw [hcontrol] at hbefore
      unfold Actor.held
      rw [hcontrol]
      cases rejectedEvent with
      | some event => exact ⟨hbefore, rfl⟩
      | none => cases hbefore
    · rintro ⟨hafter, -⟩
      rw [hcontrol] at hafter
      cases rejectedEvent with
      | some event => cases hafter
      | none => exact ⟨trivial, nofun⟩
    · rw [hcontrol]
      rintro (heq | heq) <;> cases heq
  unfold System.proceed
  rw [hcontrol]
  unfold World.deliverCompletion
  cases hphase : s.world.cell.phase with
  | completed pendingInitialYieldItems event =>
    rw [hphase] at hledger
    obtain ⟨rfl, hterminal, -, howes⟩ := hledger
    have hwaiting : ∀ actor : Actor, actor.control = .looping → actor.runtimeClosed = true → actor.observer = none →
        actor.Waiting := by
      intro actor hlooping hclosed hnone
      unfold Actor.Waiting
      rw [hlooping]
      exact ⟨trivial, fun _ => ⟨hclosed, hnone⟩⟩
    cases s.actor.observer with
    | none =>
      refine ⟨h.queued, .inr hended, ?_⟩
      show Ledger _ s.world.sent s.processed s.world.cell.phase
      rw [hphase]
      exact ⟨rfl, hterminal, hwaiting _ rfl hended rfl, howes⟩
    | some observer =>
      dsimp only [Option.map_some]
      cases haccepted : s.world.isOpen observer.responseTx with
      | true => exact ⟨h.queued, .inr hended, .inl rfl, event, (howes.told hterminal).again observer.responseTx _⟩
      | false =>
        refine ⟨h.queued, .inr hended, ?_⟩
        show Ledger _ (s.world.sent ++ [_]) s.processed s.world.cell.phase
        rw [hphase, haccepted]
        exact ⟨rfl, hterminal, hwaiting _ rfl hended rfl, howes.unaccepted hterminal observer.responseTx⟩
  | running | terminating | completionClaimed | tombstone => exact hrejected

theorem ending (h : Accounted s) {responseTx rejectedEvent}
    (hcontrol : s.actor.control = .ending responseTx rejectedEvent) : Accounted s.proceed := by
  have hended := h.runtime_closed (by rw [hcontrol]; exact nofun)
  unfold System.proceed
  rw [hcontrol]
  refine ⟨h.queued, .inr hended, finishTermination h.ledger ?_ _ ?_ rfl⟩
  · rw [hcontrol]
    exact ⟨nofun, nofun⟩
  · intro hopen
    obtain ⟨hbefore, -⟩ := (Ledger.of_open hopen).1 h.ledger
    unfold Actor.held
    rw [hcontrol] at hbefore ⊢
    cases rejectedEvent with
    | none => cases hbefore
    | some event =>
      obtain ⟨contentItems, errorText, rfl⟩ := hbefore
      rfl

/-- The loop is left when the outcome has been told, so that the tombstone hides nothing. -/
theorem closing (h : Accounted s) (hcontrol : s.actor.control = .closing) : Accounted s.proceed := by
  have hended := h.runtime_closed (by rw [hcontrol]; exact nofun)
  have hledger := h.ledger
  unfold System.proceed
  rw [hcontrol]
  refine ⟨h.queued, .inr hended, .inr rfl, ?_⟩
  cases hphase : s.world.cell.phase with
  | tombstone =>
    rw [hphase] at hledger
    exact hledger.2
  | running | terminating =>
    rw [hphase] at hledger
    have hbefore := hledger.1
    rw [hcontrol] at hbefore
    cases hbefore
  | completed =>
    rw [hphase] at hledger
    have hafter := hledger.2.2.1.1
    rw [hcontrol] at hafter
    cases hafter
  | completionClaimed =>
    rw [hphase] at hledger
    have hafter := hledger.1.1
    rw [hcontrol] at hafter
    cases hafter

theorem proceed (h : Accounted s) : Accounted s.proceed := by
  cases hcontrol : s.actor.control with
  | cancelling => exact h.cancelling hcontrol
  | draining => exact h.draining hcontrol
  | committing => exact h.committing hcontrol
  | delivering => exact h.delivering hcontrol
  | ending => exact h.ending hcontrol
  | closing => exact h.closing hcontrol
  | looping | closed =>
    unfold System.proceed
    rw [hcontrol]
    exact h

theorem whenLooping (h : Accounted s) {branch : System → System}
    (hbranch : s.actor.control = .looping → Accounted (branch s)) : Accounted (s.whenLooping branch) := by
  unfold System.whenLooping
  split
  next hcontrol => exact hbranch hcontrol
  next => exact h

theorem step (h : Accounted s) (a : ActorAction) : Accounted (actorStep s a) := by
  cases a with
  | emit event =>
    unfold actorStep System.emit
    dsimp only
    split
    next => exact h
    next =>
      refine ⟨?_, h.ended, h.ledger⟩
      have hitem : [event].filterMap RuntimeEvent.item = event.item.toList := by
        cases event <;> rfl
      rw [List.filterMap_append, hitem, ← List.append_assoc, h.queued]
  | endRuntime | dropHandles | cancelSession | dropReceiver => exact ⟨h.queued, h.ended, h.ledger⟩
  | observe mode id =>
    unfold actorStep System.observe
    dsimp only
    split
    next => exact h
    next =>
      split
      next => exact ⟨h.queued, h.ended, h.ledger⟩
      next => exact ⟨h.queued, h.ended, h.ledger.error ..⟩
  | terminate id =>
    unfold actorStep
    dsimp only
    split
    next => exact h
    next => exact ⟨h.queued, h.ended, h.ledger.requestTermination _⟩
  | takeCancelled => exact h.whenLooping h.takeCancelled
  | takeCommand => exact h.whenLooping h.takeCommand
  | takeTimer => exact h.whenLooping h.takeTimer
  | takeEvent => exact h.whenLooping h.takeEvent
  | proceed => exact h.proceed

end Accounted

theorem accounted_start (storedValues : StoredValues) (initialObserveMode : ObserveMode) (id : Nat) :
    Accounted (startCell storedValues initialObserveMode id) :=
  ⟨rfl, .inl rfl, trivial, rfl, rfl, .nil, nofun⟩

/-! ## The output -/

/-- The items of the terminal event, however many heard it. -/
def terminalItems (sent : List Sent) : List OutputItem := (told sent).head?.elim [] fun delivery => delivery.2.contentItems

/-- What is sent agrees with what the runtime put out: all of it that was taken is a prefix, and
everything processed once a terminal event is told; and what was not taken comes again. -/
structure Delivered (s : System) : Prop where
  emitted : accepted s.world.sent ++ terminalItems s.world.sent <+: s.emitted
  terminal : told s.world.sent ≠ [] → accepted s.world.sent ++ terminalItems s.world.sent = s.processed
  agree : ∀ delivery ∈ told s.world.sent, delivery.2.contentItems = terminalItems s.world.sent
  reappears : Reappears (attempts s.world.sent)

theorem Owes.delivered {s held} (h : Owes s.world.sent s.processed held)
    (hqueued : s.processed ++ s.events.filterMap RuntimeEvent.item = s.emitted) : Delivered s := by
  have hnone : terminalItems s.world.sent = [] := by
    unfold terminalItems
    rw [h.untold]
    rfl
  refine ⟨?_, fun htold => absurd h.untold htold, ?_, h.reappears⟩
  · rw [hnone, List.append_nil, ← hqueued, ← h.items, List.append_assoc]
    exact List.prefix_append ..
  · rw [h.untold]
    exact nofun

theorem Told.delivered {s event} (h : Told s.world.sent s.processed event)
    (hqueued : s.processed ++ s.events.filterMap RuntimeEvent.item = s.emitted) : Delivered s := by
  have hprefix : s.processed <+: s.emitted := hqueued ▸ List.prefix_append ..
  have htold := h.told
  cases hlist : CellActor.told s.world.sent with
  | nil =>
    have hnone : terminalItems s.world.sent = [] := by
      unfold terminalItems
      rw [hlist]
      rfl
    refine ⟨?_, fun hne => absurd hlist hne, ?_, h.reappears⟩
    · rw [hnone, List.append_nil]
      exact (h.items ▸ List.prefix_append ..).trans hprefix
    · rw [hlist]
      exact nofun
  | cons delivery rest =>
    have hitems : terminalItems s.world.sent = event.contentItems := by
      unfold terminalItems
      rw [hlist, ← htold delivery (hlist ▸ List.mem_cons_self)]
      rfl
    refine ⟨?_, fun _ => hitems ▸ h.items, ?_, h.reappears⟩
    · rw [hitems, h.items]
      exact hprefix
    · intro other hother
      rw [hitems, htold other hother]

/-- **In every run of a cell the items that observers took, and then those of the terminal event, are the first that
the runtime put out.** -/
theorem output_delivered (storedValues : StoredValues) (initialObserveMode : ObserveMode) (id : Nat)
    (actions : List ActorAction) : Delivered (run actorStep (startCell storedValues initialObserveMode id) actions) := by
  have haccounted := run_invariant (P := Accounted) (fun s a hs => hs.step a)
    (accounted_start storedValues initialObserveMode id) actions
  have hledger := haccounted.ledger
  cases hphase : (run actorStep (startCell storedValues initialObserveMode id) actions).world.cell.phase with
  | running | terminating =>
    rw [hphase] at hledger
    exact hledger.2.delivered haccounted.queued
  | completed =>
    rw [hphase] at hledger
    exact hledger.2.2.2.delivered haccounted.queued
  | completionClaimed =>
    rw [hphase] at hledger
    exact hledger.2.delivered haccounted.queued
  | tombstone =>
    rw [hphase] at hledger
    obtain ⟨-, event, htold⟩ := hledger
    exact htold.delivered haccounted.queued

end Codex.CellActor
