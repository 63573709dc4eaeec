/-
A cell has one outcome, whatever the order of the operations on it
(`one_outcome`): every terminal event that arrives is the same one, the completed
event when a completion was committed and a terminated event otherwise.

What has arrived is settled by the phase.
-/
import Codex.CellState

namespace Codex.CellActor

open Runs

/-! ## What has arrived -/

def CellEvent.isTerminal : CellEvent → Bool
  | .completed .. | .terminated _ => true
  | .yielded _ | .pending .. => false

def ResponseTx.isTermination : ResponseTx → Bool
  | .termination _ => true
  | .observation _ => false

/-- The terminal event a send brought to its reader. -/
def Sent.terminal (s : Sent) : Option (ResponseTx × CellEvent) :=
  match s.response, s.accepted with
  | .ok event, true => if event.isTerminal then some (s.tx, event) else none
  | _, _ => none

def World.terminals (w : World) : List (ResponseTx × CellEvent) := w.sent.filterMap Sent.terminal

/-- An event in which a commit is delivered: the committed one, after the items of an initial
yield that were still to be delivered, if there are such. -/
def Commit.Delivers (commit : Commit) (event : CellEvent) : Prop :=
  event = commit.event ∨
    ∃ items, commit.pendingInitialYieldItems = some items ∧ event = prependInitialYield commit.event (some items)

def Commit.Completes (commit : Commit) : Prop := ∃ contentItems errorText, commit.event = .completed contentItems errorText

/-- The outcome that the commits leave: the one completed event, or a terminated one. -/
def Decides (commits : List Commit) (event : CellEvent) : Prop :=
  (∃ commit, commits = [commit] ∧ commit.Completes ∧ commit.Delivers event) ∨
    (commits = [] ∧ ∃ contentItems, event = .terminated contentItems)

structure Outcome (received : List (ResponseTx × CellEvent)) (commits : List Commit) (event : CellEvent) : Prop where
  decides : Decides commits event
  agree : ∀ delivery ∈ received, delivery.2 = event
  answered : (received.filter fun delivery => delivery.1.isTermination).length ≤ 1

variable (tx : ResponseTx) {commits : List Commit} {event : CellEvent}

theorem terminal_error (error : CellError) (accepted : Bool) :
    Sent.terminal { tx, response := .error error, accepted } = none := rfl

theorem terminal_yielded (contentItems : List OutputItem) (accepted : Bool) :
    Sent.terminal { tx, response := .ok (.yielded contentItems), accepted } = none := by
  cases accepted <;> rfl

theorem terminal_unaccepted (response : Except CellError CellEvent) :
    Sent.terminal { tx, response, accepted := false } = none := by
  cases response <;> rfl

/-- A send brings its event, or nothing. -/
theorem terminal_cases (event : CellEvent) (accepted : Bool) :
    Sent.terminal { tx, response := .ok event, accepted } = none ∨
      Sent.terminal { tx, response := .ok event, accepted } = some (tx, event) := by
  unfold Sent.terminal
  dsimp only
  split
  next heq =>
    obtain rfl := Except.ok.inj heq
    split
    next => exact .inr rfl
    next => exact .inl rfl
  next => exact .inl rfl

theorem terminals_concat (w : World) (s : Sent) :
    World.terminals { w with sent := w.sent ++ [s] } = w.terminals ++ s.terminal.toList := by
  unfold World.terminals
  rw [List.filterMap_append]
  cases hterminal : s.terminal with
  | none => rw [List.filterMap_cons_none hterminal]; rfl
  | some delivery => rw [List.filterMap_cons_some hterminal]; rfl

/-! ## What the phase says -/

def Settled (received : List (ResponseTx × CellEvent)) (commits : List Commit) : CellPhase → Prop
  | .running | .terminating _ => received = [] ∧ commits = []
  | .completed pendingInitialYieldItems event => received = [] ∧ ∃ commit, commits = [commit] ∧ commit.Completes ∧
      event = commit.event ∧ (pendingInitialYieldItems = commit.pendingInitialYieldItems ∨ pendingInitialYieldItems = none)
  | .completionClaimed event => Outcome received commits event
  | .tombstone => ∃ event, Outcome received commits event

structure Sound (initial : StoredValues) (w : World) : Prop where
  settled : Settled w.terminals w.commits w.cell.phase
  stored : w.storedValues = w.commits.foldl (fun values commit => values.extend commit.storedValueWrites) initial
  requested : w.terminationRequested = true → w.cell.phase ≠ .running

/-- Nothing has arrived yet. -/
theorem Outcome.nothing (h : Decides commits event) : Outcome [] commits event :=
  ⟨h, nofun, Nat.zero_le 1⟩

theorem Outcome.first (h : Decides commits event) (tx : ResponseTx)
    (accepted : Bool) : Outcome ([] ++ (Sent.terminal { tx, response := .ok event, accepted }).toList) commits event := by
  rcases terminal_cases tx event accepted with hnone | hsome
  · rw [hnone]
    exact .nothing h
  · rw [hsome]
    refine ⟨h, ?_, List.length_filter_le _ [(tx, event)]⟩
    intro delivery hdelivery
    rw [List.mem_singleton.1 hdelivery]

theorem Outcome.observed {received} (h : Outcome received commits event) (id : Nat) (accepted : Bool) :
    Outcome (received ++ (Sent.terminal { tx := .observation id, response := .ok event, accepted }).toList) commits event := by
  rcases terminal_cases (.observation id) event accepted with hnone | hsome
  · rw [hnone, Option.toList_none, List.append_nil]
    exact h
  · rw [hsome]
    refine ⟨h.decides, ?_, ?_⟩
    · intro delivery hdelivery
      rcases List.mem_append.1 hdelivery with hold | hnew
      · exact h.agree delivery hold
      · rw [List.mem_singleton.1 hnew]
    · have hobserved : (some (ResponseTx.observation id, event)).toList.filter (fun delivery => delivery.1.isTermination) = [] :=
        rfl
      rw [List.filter_append, hobserved, List.append_nil]
      exact h.answered

theorem Commit.delivers_prepend {commit : Commit} {pendingInitialYieldItems}
    (h : pendingInitialYieldItems = commit.pendingInitialYieldItems ∨ pendingInitialYieldItems = none) :
    commit.Delivers (prependInitialYield commit.event pendingInitialYieldItems) := by
  rcases h with rfl | rfl
  · cases hitems : commit.pendingInitialYieldItems with
    | none => exact .inl rfl
    | some items => exact .inr ⟨items, hitems, rfl⟩
  · exact .inl rfl

theorem hostCommitCompletion_eq (w : World) (storedValueWrites : StoredValues) (event : CellEvent)
    (pendingInitialYieldItems : Option (List OutputItem)) :
    w.hostCommitCompletion storedValueWrites event pendingInitialYieldItems =
      w.commitCompletion storedValueWrites event pendingInitialYieldItems := by
  unfold World.hostCommitCompletion
  split
  next hcancelled =>
    unfold World.commitCompletion
    rw [hcancelled]
    cases w.cell.phase <;> rfl
  next => rfl

/-! ## What every operation keeps -/

namespace Sound

variable {initial : StoredValues} {w : World}

/-- A response that is no terminal event leaves all as it is. -/
theorem sendOther (h : Sound initial w) {s : Sent} (hterminal : s.terminal = none) :
    Sound initial { w with sent := w.sent ++ [s] } := by
  refine ⟨?_, h.stored, h.requested⟩
  rw [terminals_concat, hterminal, Option.toList_none, List.append_nil]
  exact h.settled

theorem cancel (h : Sound initial w) : Sound initial w.cancel := ⟨h.settled, h.stored, h.requested⟩

/-- What a cell that ends has left to say. -/
theorem outcome_of_completed {received pendingInitialYieldItems}
    (h : Settled received commits (.completed pendingInitialYieldItems event)) :
    received = [] ∧ Decides commits event ∧ Decides commits (prependInitialYield event pendingInitialYieldItems) := by
  obtain ⟨hnone, commit, hcommits, hcompletes, rfl, hpending⟩ := h
  exact ⟨hnone, .inl ⟨commit, hcommits, hcompletes, .inl rfl⟩,
    .inl ⟨commit, hcommits, hcompletes, Commit.delivers_prepend hpending⟩⟩

theorem requestTermination (h : Sound initial w) (id : Nat) : Sound initial (w.requestTermination (.termination id)) := by
  have hsettled := h.settled
  unfold World.requestTermination
  dsimp only
  split
  next hphase =>
    rw [hphase] at hsettled
    exact ⟨hsettled, h.stored, nofun⟩
  next hphase =>
    have hrequested : Sound initial { w with terminationRequested := true } :=
      ⟨h.settled, h.stored, fun _ heq => nomatch hphase.symm.trans heq⟩
    exact hrequested.sendOther (terminal_error ..)
  next pendingInitialYieldItems event hphase =>
    rw [hphase] at hsettled
    obtain ⟨hnone, -, hdecides⟩ := outcome_of_completed hsettled
    refine ⟨?_, h.stored, nofun⟩
    unfold World.reply
    rw [terminals_concat]
    show Outcome (w.terminals ++ _) w.commits _
    rw [hnone]
    exact .first hdecides _ _
  next hphase =>
    have hrequested : Sound initial { w with terminationRequested := true } :=
      ⟨h.settled, h.stored, fun _ heq => nomatch hphase.symm.trans heq⟩
    exact hrequested.sendOther (terminal_error ..)
  next hphase =>
    have hrequested : Sound initial { w with terminationRequested := true } :=
      ⟨h.settled, h.stored, fun _ heq => nomatch hphase.symm.trans heq⟩
    exact hrequested.sendOther (terminal_error ..)

theorem commitCompletion (h : Sound initial w) (storedValueWrites : StoredValues) (contentItems : List OutputItem)
    (errorText : Option Text) (pendingInitialYieldItems : Option (List OutputItem)) :
    Sound initial
      (w.commitCompletion storedValueWrites (.completed contentItems errorText) pendingInitialYieldItems).2 := by
  have hsettled := h.settled
  unfold World.commitCompletion
  split
  next hphase _ =>
    rw [hphase] at hsettled
    obtain ⟨hnone, hcommits⟩ := hsettled
    have hcommit : w.commits ++ [Commit.mk storedValueWrites (.completed contentItems errorText) pendingInitialYieldItems] =
        [Commit.mk storedValueWrites (.completed contentItems errorText) pendingInitialYieldItems] := by
      rw [hcommits]
      rfl
    refine ⟨⟨hnone, _, hcommit, ⟨contentItems, errorText, rfl⟩, rfl, .inl rfl⟩, ?_, nofun⟩
    rw [List.foldl_append, ← h.stored]
    rfl
  next => exact h

theorem deliverCompletion (h : Sound initial w) (observer : Option Nat) :
    Sound initial (w.deliverCompletion (observer.map .observation)).2 := by
  have hsettled := h.settled
  unfold World.deliverCompletion
  split
  next pendingInitialYieldItems event hphase =>
    split
    next => exact h
    next responseTx _ =>
      split
      next =>
        rw [hphase] at hsettled
        obtain ⟨hnone, hdecides, -⟩ := outcome_of_completed hsettled
        refine ⟨⟨event, ?_⟩, h.stored, nofun⟩
        show Outcome (World.terminals (w.send responseTx (.ok event))) w.commits event
        unfold World.send
        rw [terminals_concat, hnone]
        exact .first hdecides _ _
      next hclosed =>
        have hunaccepted := Bool.eq_false_iff.2 hclosed
        unfold World.send
        rw [hunaccepted]
        exact h.sendOther (terminal_unaccepted ..)
  next => exact h

theorem routeObservation (h : Sound initial w) (mode : ObserveMode) (observer : Nat) :
    Sound initial (w.routeObservation mode (.observation observer)).2 := by
  have hsettled := h.settled
  unfold World.routeObservation
  split
  next => exact h
  next pendingInitialYieldItems event hphase =>
    split
    next contentItems _ =>
      have hsent : Sound initial (w.send (.observation observer) (.ok (.yielded contentItems))) :=
        h.sendOther (terminal_yielded ..)
      split
      next =>
        have hsettled := hsent.settled
        rw [show (w.send (.observation observer) (.ok (.yielded contentItems))).cell.phase = _ from hphase] at hsettled
        obtain ⟨hnone, commit, hcommits, hcompletes, hevent, -⟩ := hsettled
        exact ⟨⟨hnone, commit, hcommits, hcompletes, hevent, .inr rfl⟩, h.stored, nofun⟩
      next => exact hsent
    next =>
      split
      next =>
        rw [hphase] at hsettled
        obtain ⟨hnone, -, hdecides⟩ := outcome_of_completed hsettled
        refine ⟨⟨prependInitialYield event pendingInitialYieldItems, ?_⟩, h.stored, nofun⟩
        show Outcome (World.terminals (w.send _ _)) w.commits _
        unfold World.send
        rw [terminals_concat, hnone]
        exact .first hdecides _ _
      next hclosed =>
        have hunaccepted := Bool.eq_false_iff.2 hclosed
        unfold World.send
        rw [hunaccepted]
        exact h.sendOther (terminal_unaccepted ..)
  next => exact h.sendOther (terminal_error ..)
  next => exact h.sendOther (terminal_error ..)
  next => exact h.sendOther (terminal_error ..)

theorem phase_finishTermination (w : World) (event : CellEvent) : (w.finishTermination event).2.cell.phase = .tombstone := by
  unfold World.finishTermination
  split <;> rfl

/-- The end of a cell has an outcome, unless it had ended before. -/
theorem finish (h : Sound initial w) (contentItems : List OutputItem) :
    Sound initial (w.finishTermination (.terminated contentItems)).2 ∧
      ∀ event, (w.finishTermination (.terminated contentItems)).1 = some event →
        Outcome (w.finishTermination (.terminated contentItems)).2.terminals
          (w.finishTermination (.terminated contentItems)).2.commits event := by
  have hsettled := h.settled
  -- in each phase the outcome is the event that is handed on
  have hfinished : ∀ w' : World, ∀ event, w'.storedValues = w.storedValues → w'.commits = w.commits →
      w'.cell.phase = .tombstone → Outcome w'.terminals w'.commits event →
      Sound initial w' ∧ ∀ event', some event = some event' → Outcome w'.terminals w'.commits event' := by
    rintro w' event hstored hcommits hphase houtcome
    refine ⟨⟨?_, ?_, ?_⟩, ?_⟩
    · rw [hphase]
      exact ⟨event, houtcome⟩
    · rw [hstored, hcommits]
      exact h.stored
    · intro _
      rw [hphase]
      exact nofun
    · rintro _ ⟨⟩
      exact houtcome
  unfold World.finishTermination
  split
  next hphase =>
    rw [hphase] at hsettled
    obtain ⟨hnone, hcommits⟩ := hsettled
    refine hfinished _ _ rfl rfl rfl ?_
    show Outcome w.terminals w.commits _
    rw [hnone]
    exact .nothing (.inr ⟨hcommits, contentItems, rfl⟩)
  next responseTx hphase =>
    rw [hphase] at hsettled
    obtain ⟨hnone, hcommits⟩ := hsettled
    refine hfinished _ _ rfl rfl rfl ?_
    unfold World.send
    rw [terminals_concat]
    show Outcome (w.terminals ++ _) w.commits _
    rw [hnone]
    exact .first (.inr ⟨hcommits, contentItems, rfl⟩) _ _
  next pendingInitialYieldItems event hphase =>
    rw [hphase] at hsettled
    obtain ⟨hnone, -, hdecides⟩ := outcome_of_completed hsettled
    refine hfinished _ _ rfl rfl rfl ?_
    show Outcome w.terminals w.commits _
    rw [hnone]
    exact .nothing hdecides
  next completedEvent hphase =>
    rw [hphase] at hsettled
    exact hfinished _ _ rfl rfl rfl hsettled
  next hphase =>
    rw [hphase] at hsettled
    exact ⟨⟨hsettled, h.stored, nofun⟩, nofun⟩

theorem finishTermination (h : Sound initial w) (observer : Option Nat) (contentItems : List OutputItem) :
    Sound initial (finishTermination w (observer.map .observation) (.terminated contentItems)) := by
  obtain ⟨hfinished, houtcome⟩ := h.finish contentItems
  have hphase := phase_finishTermination w (.terminated contentItems)
  unfold CellActor.finishTermination
  split
  next event w' heq =>
    rw [heq] at hfinished houtcome hphase
    cases observer with
    | none => exact hfinished
    | some observer =>
      refine ⟨?_, hfinished.stored, hfinished.requested⟩
      dsimp only [Option.map_some]
      unfold World.send
      rw [terminals_concat]
      rw [hphase]
      exact ⟨event, (houtcome event rfl).observed observer _⟩
  next w' heq =>
    rw [heq] at hfinished
    exact hfinished

/-- A tombstone is put up whatever the phase; what was not delivered stays undelivered. -/
theorem tombstone (h : Sound initial w) : Sound initial w.tombstone := by
  have hsettled := h.settled
  refine ⟨?_, h.stored, nofun⟩
  show ∃ event, Outcome w.terminals w.commits event
  cases hphase : w.cell.phase with
  | running | terminating =>
    rw [hphase] at hsettled
    obtain ⟨hnone, hcommits⟩ := hsettled
    rw [hnone]
    exact ⟨.terminated [], .nothing (.inr ⟨hcommits, [], rfl⟩)⟩
  | completed pendingInitialYieldItems event =>
    rw [hphase] at hsettled
    obtain ⟨hnone, hdecides, -⟩ := outcome_of_completed hsettled
    rw [hnone]
    exact ⟨event, .nothing hdecides⟩
  | completionClaimed event =>
    rw [hphase] at hsettled
    exact ⟨event, hsettled⟩
  | tombstone =>
    rw [hphase] at hsettled
    exact hsettled

theorem step (h : Sound initial w) (a : Action) : Sound initial (step w a) := by
  cases a with
  | requestTermination id => exact h.requestTermination id
  | commitCompletion storedValueWrites contentItems errorText pendingInitialYieldItems =>
    have hcommitted := h.commitCompletion storedValueWrites contentItems errorText pendingInitialYieldItems
    rw [← hostCommitCompletion_eq] at hcommitted
    exact hcommitted
  | deliverCompletion observer => exact h.deliverCompletion observer
  | routeObservation mode observer => exact h.routeObservation mode observer
  | finishTermination observer contentItems => exact h.finishTermination observer contentItems
  | tombstone => exact h.tombstone
  | cancelSession => exact h.cancel
  | dropReceiver tx => exact ⟨h.settled, h.stored, h.requested⟩

end Sound

def start (initial : StoredValues) : World := { storedValues := initial }

theorem sound_start (initial : StoredValues) : Sound initial (start initial) := ⟨⟨rfl, rfl⟩, rfl, nofun⟩

/-! ## The outcome -/

/-- In each phase some outcome is open or settled. -/
theorem Sound.outcome {initial w} (h : Sound initial w) :
    ∃ event, Outcome w.terminals w.commits event := h.tombstone.settled

/-- A commit is made while the token is not cancelled and no call asked for termination. -/
def CommitsInTime (w : World) (a : Action) : Prop :=
  (step w a).commits = w.commits ∨ (w.cell.cancelled = false ∧ w.terminationRequested = false)

theorem Sound.commitsInTime {initial w} (h : Sound initial w) (a : Action) : CommitsInTime w a := by
  cases a with
  | requestTermination id =>
    left
    show (w.requestTermination (.termination id)).commits = w.commits
    unfold World.requestTermination
    dsimp only
    split <;> rfl
  | commitCompletion storedValueWrites contentItems errorText pendingInitialYieldItems =>
    unfold CommitsInTime
    dsimp only [CellActor.step]
    rw [hostCommitCompletion_eq]
    unfold World.commitCompletion
    split
    next hphase hcancelled =>
      right
      refine ⟨hcancelled, Bool.eq_false_iff.2 ?_⟩
      intro hrequested
      exact h.requested hrequested hphase
    next => exact .inl rfl
  | deliverCompletion observer =>
    left
    show (w.deliverCompletion _).2.commits = w.commits
    unfold World.deliverCompletion
    repeat' split
    all_goals rfl
  | routeObservation mode observer =>
    left
    show (w.routeObservation mode _).2.commits = w.commits
    unfold World.routeObservation
    repeat' split
    all_goals rfl
  | finishTermination observer contentItems =>
    left
    show (CellActor.finishTermination w _ _).commits = w.commits
    unfold CellActor.finishTermination World.finishTermination
    cases w.cell.phase <;> cases observer <;> rfl
  | tombstone | cancelSession | dropReceiver => exact .inl rfl

/-- **In every order of the operations all terminal events that arrive are one event, the completed one just when
the writes were applied, which they are at most once.** -/
theorem one_outcome (initial : StoredValues) (actions : List Action) :
    (∃ event, Outcome (run step (start initial) actions).terminals (run step (start initial) actions).commits event) ∧
      (run step (start initial) actions).commits.length ≤ 1 ∧
      (run step (start initial) actions).storedValues =
        (run step (start initial) actions).commits.foldl (fun values commit => values.extend commit.storedValueWrites) initial ∧
      Along step CommitsInTime (start initial) actions := by
  have hsound := run_invariant (P := Sound initial) (fun w a hw => hw.step a) (sound_start initial) actions
  obtain ⟨event, houtcome⟩ := hsound.outcome
  refine ⟨⟨event, houtcome⟩, ?_, hsound.stored, ?_⟩
  · rcases houtcome.decides with ⟨commit, hcommits, -⟩ | ⟨hcommits, -⟩
    · rw [hcommits]
      rfl
    · rw [hcommits]
      exact Nat.zero_le 1
  · exact along_of_invariant (P := Sound initial) (fun w a hw => hw.step a) (fun w a hw => hw.commitsInTime a)
      (sound_start initial) actions

end Codex.CellActor
