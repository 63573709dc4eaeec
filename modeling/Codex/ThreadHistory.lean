/-
The history a thread shows its clients
(`app-server-protocol/src/protocol/thread_history.rs`): a builder that groups
the records of a rollout into turns, and the change sets it hands to those who
follow the thread without rebuilding it.

The builder keeps the finished turns and at most one open turn. Turns begin explicitly at
a `TurnStarted`, or implicitly at the first item that finds no open turn; a builder of a
rollout names an implicit turn by the index of the record.
-/
import Codex.ThreadItems

namespace Codex

/-! ## Turns -/

inductive TurnStatus where
  | completed
  | interrupted
  | failed
  | inProgress
  deriving DecidableEq

structure TurnError where
  message : String
  codexErrorInfo : Option CodexErrorInfo
  additionalDetails : Option String := none
  deriving DecidableEq

/-- `Turn`; its `items_view` is always `Full` here. -/
structure Turn where
  id : String
  items : List ThreadItem := []
  error : Option TurnError := none
  status : TurnStatus := .completed
  startedAt : Option Int := none
  completedAt : Option Int := none
  durationMs : Option Int := none
  deriving DecidableEq

/-- `PendingTurn`; `Turn::from` forgets its own fields. -/
structure PendingTurn extends Turn where
  openedExplicitly : Bool := false
  sawCompaction : Bool := false
  rolloutStartIndex : Nat
  deriving DecidableEq

def upsertTurnItem (items : List ThreadItem) (item : ThreadItem) : List ThreadItem :=
  match items.findIdx? (·.id == item.id) with
  | some existingItemIndex => items.set existingItemIndex item
  | none => items ++ [item]

def Turn.pushItem (turn : Turn) (item : ThreadItem) : Turn := { turn with items := turn.items ++ [item] }

def Turn.upsertItem (turn : Turn) (item : ThreadItem) : Turn :=
  { turn with items := upsertTurnItem turn.items item }

def Turn.fail (turn : Turn) (payload : ErrorEvent) : Turn :=
  { turn with
    status := .failed
    error := some { message := payload.message, codexErrorInfo := payload.codexErrorInfo } }

/-- `apply_abort` -/
def Turn.abort (turn : Turn) (payload : TurnAbortedEvent) : Turn :=
  { turn with status := .interrupted, completedAt := payload.completedAt, durationMs := payload.durationMs }

def Turn.markCompleted (turn : Turn) (payload : TurnCompleteEvent) : Turn :=
  { turn with
    status := match turn.status with
      | .completed | .inProgress => .completed
      | status => status
    completedAt := payload.completedAt
    durationMs := payload.durationMs }

def PendingTurn.update (turn : PendingTurn) (f : Turn → Turn) : PendingTurn := { turn with toTurn := f turn.toTurn }

/-- `turns.iter_mut().find(|turn| turn.id == turn_id)`, updated. -/
def updateTurn (turnId : String) (f : Turn → Turn) : List Turn → List Turn
  | [] => []
  | turn :: turns => if turn.id = turnId then f turn :: turns else turn :: updateTurn turnId f turns

/-! ## Change sets -/

structure ThreadHistoryItemChange where
  turnId : String
  item : ThreadItem
  deriving DecidableEq

structure ThreadHistoryTurnChange where
  turnId : String
  status : TurnStatus
  error : Option TurnError
  startedAt : Option Int
  completedAt : Option Int
  durationMs : Option Int
  deriving DecidableEq

/-- `from_turn` and `from_pending_turn` -/
def ThreadHistoryTurnChange.fromTurn (turn : Turn) : ThreadHistoryTurnChange :=
  { turnId := turn.id
    status := turn.status
    error := turn.error
    startedAt := turn.startedAt
    completedAt := turn.completedAt
    durationMs := turn.durationMs }

structure ThreadHistoryChangeSet where
  changedItems : List ThreadHistoryItemChange := []
  changedTurns : List ThreadHistoryTurnChange := []
  removedTurnIds : List String := []
  deriving DecidableEq

/-! ## The builder -/

structure ThreadHistoryBuilder where
  turns : List Turn := []
  currentTurn : Option PendingTurn := none
  nextItemIndex : Nat := 1
  currentRolloutIndex : Nat := 0
  nextRolloutIndex : Nat := 0
  activeChangeSet : Option ThreadHistoryChangeSet := none

namespace ThreadHistoryBuilder

def recordChangedItem (b : ThreadHistoryBuilder) (turnId : String) (item : ThreadItem) : ThreadHistoryBuilder :=
  { b with
    activeChangeSet := b.activeChangeSet.map fun changes =>
      { changes with changedItems := changes.changedItems ++ [{ turnId, item }] } }

def recordChangedTurn (b : ThreadHistoryBuilder) (turn : Turn) : ThreadHistoryBuilder :=
  { b with
    activeChangeSet := b.activeChangeSet.map fun changes =>
      { changes with changedTurns := changes.changedTurns ++ [.fromTurn turn] } }

def recordRemovedTurnIds (b : ThreadHistoryBuilder) (removedTurnIds : List String) : ThreadHistoryBuilder :=
  { b with
    activeChangeSet := b.activeChangeSet.map fun changes =>
      { changes with removedTurnIds := changes.removedTurnIds ++ removedTurnIds } }

def finishCurrentTurn (b : ThreadHistoryBuilder) : ThreadHistoryBuilder :=
  match b.currentTurn with
  | some turn =>
    if turn.items.isEmpty && !turn.openedExplicitly && !turn.sawCompaction then { b with currentTurn := none }
    else { b with currentTurn := none, turns := b.turns ++ [turn.toTurn] }
  | none => b

def newTurn (b : ThreadHistoryBuilder) (id : Option String) : PendingTurn :=
  { id := id.getD ("rollout-" ++ toString b.currentRolloutIndex)
    rolloutStartIndex := b.currentRolloutIndex }

/-- `record_changed_pending_turn` and `current_turn = Some(turn)` -/
def openTurn (b : ThreadHistoryBuilder) (turn : PendingTurn) : ThreadHistoryBuilder :=
  { b.recordChangedTurn turn.toTurn with currentTurn := some turn }

def ensureTurn (b : ThreadHistoryBuilder) : ThreadHistoryBuilder :=
  if b.currentTurn.isNone then b.openTurn (b.newTurn none) else b

def setCurrentTurn (b : ThreadHistoryBuilder) (turn : PendingTurn) : ThreadHistoryBuilder :=
  { b with currentTurn := some turn }

def setTurns (b : ThreadHistoryBuilder) (turns : List Turn) : ThreadHistoryBuilder := { b with turns }

/-- The item that one of these operations changes in a turn, recorded with the turn's id. -/
def changeItemInCurrentTurn (b : ThreadHistoryBuilder) (f : Turn → Turn) (item : ThreadItem) :
    ThreadHistoryBuilder :=
  match b.currentTurn with
  | some turn => (b.setCurrentTurn (turn.update f)).recordChangedItem turn.id item
  | none => b

def pushItemInCurrentTurn (b : ThreadHistoryBuilder) (item : ThreadItem) : ThreadHistoryBuilder :=
  b.ensureTurn.changeItemInCurrentTurn (·.pushItem item) item

def upsertItemInCurrentTurn (b : ThreadHistoryBuilder) (item : ThreadItem) : ThreadHistoryBuilder :=
  b.ensureTurn.changeItemInCurrentTurn (·.upsertItem item) item

def currentTurnMatches (b : ThreadHistoryBuilder) (turnId : String) : Bool := b.currentTurn.any (·.id == turnId)

def hasFinishedTurn (b : ThreadHistoryBuilder) (turnId : String) : Bool := b.turns.any (·.id == turnId)

/-- An item of an unknown turn is dropped. -/
def upsertItemInTurnId (b : ThreadHistoryBuilder) (turnId : String) (item : ThreadItem) : ThreadHistoryBuilder :=
  if b.currentTurnMatches turnId then b.changeItemInCurrentTurn (·.upsertItem item) item
  else if b.hasFinishedTurn turnId then
    (b.setTurns (updateTurn turnId (·.upsertItem item) b.turns)).recordChangedItem turnId item
  else b

def nextItemId (b : ThreadHistoryBuilder) : String := "item-" ++ toString b.nextItemIndex

/-- `self.next_item_index += 1` -/
def takeItemId (b : ThreadHistoryBuilder) : ThreadHistoryBuilder := { b with nextItemIndex := b.nextItemIndex + 1 }

def upsertReviewModeItem (b : ThreadHistoryBuilder) (turnId : Option String) (item : ThreadItem) :
    ThreadHistoryBuilder :=
  match turnId with
  | none => b.upsertItemInCurrentTurn item
  | some turnId =>
    let b :=
      if !b.currentTurnMatches turnId && !b.hasFinishedTurn turnId then
        let b := b.finishCurrentTurn
        b.openTurn (b.newTurn (some turnId))
      else b
    b.upsertItemInTurnId turnId item

/-- The events with an empty turn id belong to the open turn. -/
def upsertItemInNamedTurn (b : ThreadHistoryBuilder) (turnId : String) (item : ThreadItem) : ThreadHistoryBuilder :=
  if turnId.isEmpty then b.upsertItemInCurrentTurn item else b.upsertItemInTurnId turnId item

/-! ### Item handlers -/

section
variable (E : Externals) (D : ItemDisplay)

def handleResponseItem (b : ThreadHistoryBuilder) : ResponseItem → ThreadHistoryBuilder
  | .message id role content _ _ =>
    if role != "user" then b
    else match parseHookPromptFragments E content with
    | none => b
    | some fragments =>
      b.pushItemInCurrentTurn (.hookPrompt (id.getD (D.newItemId b.currentRolloutIndex)) fragments)
  | _ => b

def handleUserMessage (b : ThreadHistoryBuilder) (payload : UserMessageEvent) : ThreadHistoryBuilder :=
  let b :=
    if b.currentTurn.any fun turn => !turn.openedExplicitly && !(turn.sawCompaction && turn.items.isEmpty) then
      b.finishCurrentTurn
    else b
  b.takeItemId.pushItemInCurrentTurn (.userMessage b.nextItemId payload.clientId (buildUserInputs payload))

def handleAgentMessage (b : ThreadHistoryBuilder) (payload : AgentMessageEvent) : ThreadHistoryBuilder :=
  if payload.message.isEmpty then b
  else b.takeItemId.pushItemInCurrentTurn
    (.agentMessage b.nextItemId payload.message payload.phase payload.memoryCitation)

/-- A last reasoning item with `summary` and `content` appended to it. -/
def extendReasoning (summary content : List String) : Option ThreadItem → Option ThreadItem
  | some (.reasoning id summary' content') => some (.reasoning id (summary' ++ summary) (content' ++ content))
  | _ => none

def Turn.replaceLastItem (turn : Turn) (item : ThreadItem) : Turn :=
  { turn with items := turn.items.dropLast ++ [item] }

/-- `handle_agent_reasoning` and `handle_agent_reasoning_raw_content`, which differ in the list they extend. -/
def appendReasoning (b : ThreadHistoryBuilder) (summary content : List String) : ThreadHistoryBuilder :=
  let b := b.ensureTurn
  match extendReasoning summary content (b.currentTurn.bind (·.items.getLast?)) with
  | some item => b.changeItemInCurrentTurn (Turn.replaceLastItem · item) item
  | none => b.takeItemId.pushItemInCurrentTurn (.reasoning b.nextItemId summary content)

def handleAgentReasoning (b : ThreadHistoryBuilder) (text : String) : ThreadHistoryBuilder :=
  if text.isEmpty then b else b.appendReasoning [text] []

def handleAgentReasoningRawContent (b : ThreadHistoryBuilder) (text : String) : ThreadHistoryBuilder :=
  if text.isEmpty then b else b.appendReasoning [] [text]

/-- `handle_item_started` and `handle_item_completed` -/
def handleMaterializedItemLifecycle (b : ThreadHistoryBuilder) (turnId : String) (item : TurnItem) :
    ThreadHistoryBuilder :=
  match materializedItem D item with
  | none => b
  | some threadItem =>
    match item with
    | .enteredReviewMode .. | .exitedReviewMode .. => b.upsertReviewModeItem (some turnId) threadItem
    | _ => b.upsertItemInTurnId turnId threadItem

def handleWebSearchBegin (b : ThreadHistoryBuilder) (callId : String) : ThreadHistoryBuilder :=
  b.upsertItemInCurrentTurn (webSearchBeginItem callId)

def handleWebSearchEnd (b : ThreadHistoryBuilder) (payload : WebSearchEndEvent) : ThreadHistoryBuilder :=
  b.upsertItemInCurrentTurn (webSearchEndItem payload)

def handleExecCommandBegin (b : ThreadHistoryBuilder) (payload : ExecCommandBeginEvent) : ThreadHistoryBuilder :=
  b.upsertItemInTurnId payload.turnId (buildCommandExecutionBeginItem D payload)

/-- Completions can arrive when a newer turn is open, so the event's turn id decides. -/
def handleExecCommandEnd (b : ThreadHistoryBuilder) (payload : ExecCommandEndEvent) : ThreadHistoryBuilder :=
  b.upsertItemInTurnId payload.turnId (buildCommandExecutionEndItem D payload)

def handleGuardianAssessment (b : ThreadHistoryBuilder) (payload : GuardianAssessmentEvent) :
    ThreadHistoryBuilder :=
  match guardianItem D payload with
  | none => b
  | some item => b.upsertItemInNamedTurn payload.turnId item

/-- `handle_apply_patch_approval_request` and `handle_patch_apply_begin` -/
def handlePatchApplyBegin (b : ThreadHistoryBuilder) (payload : PatchEvent) : ThreadHistoryBuilder :=
  b.upsertItemInNamedTurn payload.turnId (buildFileChangeBeginItem D payload)

def handlePatchApplyEnd (b : ThreadHistoryBuilder) (payload : PatchApplyEndEvent) : ThreadHistoryBuilder :=
  b.upsertItemInNamedTurn payload.turnId (buildFileChangeEndItem D payload)

def handleDynamicToolCallRequest (b : ThreadHistoryBuilder) (payload : DynamicToolCallRequest) :
    ThreadHistoryBuilder :=
  b.upsertItemInNamedTurn payload.turnId (dynamicToolCallRequestItem payload)

def handleDynamicToolCallResponse (b : ThreadHistoryBuilder) (payload : DynamicToolCallResponseEvent) :
    ThreadHistoryBuilder :=
  b.upsertItemInNamedTurn payload.turnId (dynamicToolCallResponseItem payload)

def handleMcpToolCallBegin (b : ThreadHistoryBuilder) (payload : McpToolCallBeginEvent) : ThreadHistoryBuilder :=
  b.upsertItemInCurrentTurn (mcpToolCallItem payload .inProgress none none none)

def handleMcpToolCallEnd (b : ThreadHistoryBuilder) (payload : McpToolCallEndEvent) : ThreadHistoryBuilder :=
  b.upsertItemInCurrentTurn (mcpToolCallEndItem payload)

def handleViewImageToolCall (b : ThreadHistoryBuilder) (callId path : String) : ThreadHistoryBuilder :=
  b.upsertItemInCurrentTurn (.imageView callId path)

def handleImageGenerationBegin (b : ThreadHistoryBuilder) (callId : String) : ThreadHistoryBuilder :=
  b.upsertItemInCurrentTurn (imageGenerationBeginItem callId)

def handleImageGenerationEnd (b : ThreadHistoryBuilder) (payload : ImageGenerationItem) : ThreadHistoryBuilder :=
  b.upsertItemInCurrentTurn (.imageGeneration payload)

def handleCollabAgentSpawnBegin (b : ThreadHistoryBuilder) (payload : CollabAgentSpawnBeginEvent) :
    ThreadHistoryBuilder :=
  b.upsertItemInCurrentTurn (collabAgentSpawnBeginItem payload)

def handleCollabAgentSpawnEnd (b : ThreadHistoryBuilder) (payload : CollabAgentSpawnEndEvent) :
    ThreadHistoryBuilder :=
  b.upsertItemInCurrentTurn (collabAgentSpawnEndItem payload)

def handleCollabAgentInteractionBegin (b : ThreadHistoryBuilder) (payload : CollabAgentInteractionBeginEvent) :
    ThreadHistoryBuilder :=
  b.upsertItemInCurrentTurn (collabAgentInteractionBeginItem payload)

def handleCollabAgentInteractionEnd (b : ThreadHistoryBuilder) (payload : CollabAgentInteractionEndEvent) :
    ThreadHistoryBuilder :=
  b.upsertItemInCurrentTurn (collabAgentInteractionEndItem payload)

def handleSubAgentActivity (b : ThreadHistoryBuilder) (payload : SubAgentActivityItem) : ThreadHistoryBuilder :=
  b.upsertItemInCurrentTurn (.subAgentActivity payload.id payload.kind payload.agentThreadId payload.agentPath)

def handleCollabWaitingBegin (b : ThreadHistoryBuilder) (payload : CollabWaitingBeginEvent) : ThreadHistoryBuilder :=
  b.upsertItemInCurrentTurn (collabWaitingBeginItem payload)

def handleCollabWaitingEnd (b : ThreadHistoryBuilder) (payload : CollabWaitingEndEvent) : ThreadHistoryBuilder :=
  b.upsertItemInCurrentTurn (collabWaitingEndItem payload)

def handleCollabCloseBegin (b : ThreadHistoryBuilder) (payload : CollabAgentEvent) : ThreadHistoryBuilder :=
  b.upsertItemInCurrentTurn (collabAgentBeginItem .closeAgent payload)

def handleCollabCloseEnd (b : ThreadHistoryBuilder) (payload : CollabAgentEndEvent) : ThreadHistoryBuilder :=
  b.upsertItemInCurrentTurn (collabAgentEndItem .closeAgent payload)

def handleCollabResumeBegin (b : ThreadHistoryBuilder) (payload : CollabAgentEvent) : ThreadHistoryBuilder :=
  b.upsertItemInCurrentTurn (collabAgentBeginItem .resumeAgent payload)

def handleCollabResumeEnd (b : ThreadHistoryBuilder) (payload : CollabAgentEndEvent) : ThreadHistoryBuilder :=
  b.upsertItemInCurrentTurn (collabAgentEndItem .resumeAgent payload)

def handleContextCompacted (b : ThreadHistoryBuilder) : ThreadHistoryBuilder :=
  b.takeItemId.pushItemInCurrentTurn (.contextCompaction b.nextItemId)

/-- An item id, drawn from the builder when the event has none. -/
def itemIdOrNext (b : ThreadHistoryBuilder) : Option String → ThreadHistoryBuilder × String
  | some itemId => (b, itemId)
  | none => (b.takeItemId, b.nextItemId)

def handleEnteredReviewMode (b : ThreadHistoryBuilder) (turnId itemId userFacingHint : Option String) :
    ThreadHistoryBuilder :=
  let review := userFacingHint.getD "Review requested."
  let (b, id) := b.itemIdOrNext itemId
  b.upsertReviewModeItem turnId (.enteredReviewMode id review)

def handleExitedReviewMode (b : ThreadHistoryBuilder) (turnId itemId : Option String) (reviewOutput : Option RawJson) :
    ThreadHistoryBuilder :=
  let review := reviewOutputText D reviewOutput
  let (b, id) := b.itemIdOrNext itemId
  b.upsertReviewModeItem turnId (.exitedReviewMode id review)

end

/-! ### Turn handlers -/

def affectsTurnStatus (payload : ErrorEvent) : Bool :=
  match payload.codexErrorInfo with
  | some .threadRollbackFailed | some (.activeTurnNotSteerable _) => false
  | _ => true

/-- A change of the open turn's own fields, recorded. -/
def changeCurrentTurn (b : ThreadHistoryBuilder) (f : Turn → Turn) : ThreadHistoryBuilder :=
  match b.currentTurn with
  | some turn => (b.setCurrentTurn (turn.update f)).recordChangedTurn (f turn.toTurn)
  | none => b

/-- A change of a finished turn's own fields, recorded. -/
def changeFinishedTurn (b : ThreadHistoryBuilder) (turnId : String) (f : Turn → Turn) : ThreadHistoryBuilder :=
  match b.turns.find? (·.id == turnId) with
  | some turn => (b.setTurns (updateTurn turnId f b.turns)).recordChangedTurn (f turn)
  | none => b

def handleError (b : ThreadHistoryBuilder) (payload : ErrorEvent) : ThreadHistoryBuilder :=
  if affectsTurnStatus payload then b.changeCurrentTurn (·.fail payload) else b

def handleTurnAborted (b : ThreadHistoryBuilder) (payload : TurnAbortedEvent) : ThreadHistoryBuilder :=
  match payload.turnId with
  | some turnId =>
    if b.currentTurnMatches turnId then b.changeCurrentTurn (·.abort payload)
    else if b.hasFinishedTurn turnId then b.changeFinishedTurn turnId (·.abort payload)
    else b.changeCurrentTurn (·.abort payload)
  | none => b.changeCurrentTurn (·.abort payload)

def handleTurnStarted (b : ThreadHistoryBuilder) (payload : TurnStartedEvent) : ThreadHistoryBuilder :=
  let b := b.finishCurrentTurn
  let turn := b.newTurn (some payload.turnId)
  b.openTurn { turn with status := .inProgress, startedAt := payload.startedAt, openedExplicitly := true }

def handleTurnComplete (b : ThreadHistoryBuilder) (payload : TurnCompleteEvent) : ThreadHistoryBuilder :=
  if b.currentTurnMatches payload.turnId then (b.changeCurrentTurn (·.markCompleted payload)).finishCurrentTurn
  else if b.hasFinishedTurn payload.turnId then b.changeFinishedTurn payload.turnId (·.markCompleted payload)
  else (b.changeCurrentTurn (·.markCompleted payload)).finishCurrentTurn

/-- Keeps a compaction-only turn from being dropped when it is finished. -/
def handleCompacted (b : ThreadHistoryBuilder) : ThreadHistoryBuilder :=
  let b := b.ensureTurn
  { b with currentTurn := b.currentTurn.map fun turn => { turn with sawCompaction := true } }

def handleThreadRollback (b : ThreadHistoryBuilder) (numTurns : UInt32) : ThreadHistoryBuilder :=
  let b := b.finishCurrentTurn
  let n := numTurns.toNat
  let removedTurnIds :=
    if n ≥ b.turns.length then b.turns.map (·.id)
    else if n = 0 then []
    else (b.turns.drop (b.turns.length - n)).map (·.id)
  let b := b.recordRemovedTurnIds removedTurnIds
  let turns := if n ≥ b.turns.length then [] else b.turns.take (b.turns.length - n)
  { b with turns, nextItemIndex := (turns.map (·.items.length)).sum + 1 }

/-! ### Records -/

section
variable (E : Externals) (D : ItemDisplay)

def handleEvent (b : ThreadHistoryBuilder) : EventMsg → ThreadHistoryBuilder
  | .userMessage payload => b.handleUserMessage payload
  | .agentMessage payload => b.handleAgentMessage payload
  | .agentReasoning text => b.handleAgentReasoning text
  | .agentReasoningRawContent text => b.handleAgentReasoningRawContent text
  | .webSearchBegin callId => b.handleWebSearchBegin callId
  | .webSearchEnd payload => b.handleWebSearchEnd payload
  | .execCommandBegin payload => b.handleExecCommandBegin D payload
  | .execCommandEnd payload => b.handleExecCommandEnd D payload
  | .guardianAssessment payload => b.handleGuardianAssessment D payload
  | .applyPatchApprovalRequest payload => b.handlePatchApplyBegin D payload
  | .patchApplyBegin payload => b.handlePatchApplyBegin D payload
  | .patchApplyEnd payload => b.handlePatchApplyEnd D payload
  | .dynamicToolCallRequest payload => b.handleDynamicToolCallRequest payload
  | .dynamicToolCallResponse payload => b.handleDynamicToolCallResponse payload
  | .mcpToolCallBegin payload => b.handleMcpToolCallBegin payload
  | .mcpToolCallEnd payload => b.handleMcpToolCallEnd payload
  | .viewImageToolCall callId path => b.handleViewImageToolCall callId path
  | .imageGenerationBegin callId => b.handleImageGenerationBegin callId
  | .imageGenerationEnd payload => b.handleImageGenerationEnd payload
  | .collabAgentSpawnBegin payload => b.handleCollabAgentSpawnBegin payload
  | .collabAgentSpawnEnd payload => b.handleCollabAgentSpawnEnd payload
  | .collabAgentInteractionBegin payload => b.handleCollabAgentInteractionBegin payload
  | .collabAgentInteractionEnd payload => b.handleCollabAgentInteractionEnd payload
  | .subAgentActivity payload => b.handleSubAgentActivity payload
  | .collabWaitingBegin payload => b.handleCollabWaitingBegin payload
  | .collabWaitingEnd payload => b.handleCollabWaitingEnd payload
  | .collabCloseBegin payload => b.handleCollabCloseBegin payload
  | .collabCloseEnd payload => b.handleCollabCloseEnd payload
  | .collabResumeBegin payload => b.handleCollabResumeBegin payload
  | .collabResumeEnd payload => b.handleCollabResumeEnd payload
  | .contextCompacted => b.handleContextCompacted
  | .enteredReviewMode turnId itemId hint => b.handleEnteredReviewMode turnId itemId hint
  | .exitedReviewMode turnId itemId reviewOutput => b.handleExitedReviewMode D turnId itemId reviewOutput
  | .itemStarted turnId item => b.handleMaterializedItemLifecycle D turnId item
  | .itemCompleted turnId item => b.handleMaterializedItemLifecycle D turnId item
  | .error payload => b.handleError payload
  | .threadRolledBack numTurns => b.handleThreadRollback numTurns
  | .turnAborted payload => b.handleTurnAborted payload
  | .turnStarted payload => b.handleTurnStarted payload
  | .turnComplete payload => b.handleTurnComplete payload
  | .other _ => b

/-- The bookkeeping of `handle_rollout_item` before it dispatches. -/
def nextRolloutItem (b : ThreadHistoryBuilder) : ThreadHistoryBuilder :=
  { b with currentRolloutIndex := b.nextRolloutIndex, nextRolloutIndex := b.nextRolloutIndex + 1 }

def dispatch (b : ThreadHistoryBuilder) : RolloutItem → ThreadHistoryBuilder
  | .eventMsg event => b.handleEvent D event
  | .compacted _ => b.handleCompacted
  | .responseItem item => b.handleResponseItem E D item
  | .interAgentCommunication _ | .interAgentCommunicationMetadata _ | .turnContext _ | .worldState _
  | .sessionMeta _ => b

def handleRolloutItem (b : ThreadHistoryBuilder) (item : RolloutItem) : ThreadHistoryBuilder :=
  b.nextRolloutItem.dispatch E D item

def finish (b : ThreadHistoryBuilder) : List Turn := b.finishCurrentTurn.turns

def run (b : ThreadHistoryBuilder) (items : List RolloutItem) : ThreadHistoryBuilder :=
  items.foldl (handleRolloutItem E D) b

end

end ThreadHistoryBuilder

def buildTurnsFromRolloutItems (E : Externals) (D : ItemDisplay) (items : List RolloutItem) : List Turn :=
  (({} : ThreadHistoryBuilder).run E D items).finish

end Codex
