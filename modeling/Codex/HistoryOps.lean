/-
What one record does to the history builder. The handlers are many and their
effects few: `RolloutItem.historyOp` says which operation a record asks for,
and `dispatch_eq` that handling the record is running the operation. Every
result about the builder goes through these operations.
-/
import Codex.ThreadHistory

namespace Codex

/-- The shape of an item that still lacks its id. -/
def ItemForm := { form : String → ThreadItem // ∀ id, (form id).id = id }

inductive HistoryOp where
  | skip
  /-- An item appended to the open turn, with an id of its own. -/
  | push (item : ThreadItem)
  /-- An item appended to the open turn, with the next id. -/
  | pushNext (form : ItemForm)
  | userMessage (form : ItemForm)
  | reasoning (summary content : List String)
  | upsertCurrent (item : ThreadItem)
  | upsertIn (turnId : String) (item : ThreadItem)
  | reviewMode (turnId itemId : Option String) (form : ItemForm)
  | error (payload : ErrorEvent)
  | aborted (payload : TurnAbortedEvent)
  | started (payload : TurnStartedEvent)
  | complete (payload : TurnCompleteEvent)
  | compacted
  | rollback (numTurns : UInt32)

namespace HistoryOp

def upsertNamed (turnId : String) (item : ThreadItem) : HistoryOp :=
  if turnId.isEmpty then .upsertCurrent item else .upsertIn turnId item

def run (b : ThreadHistoryBuilder) : HistoryOp → ThreadHistoryBuilder
  | .skip => b
  | .push item => b.pushItemInCurrentTurn item
  | .pushNext form => b.takeItemId.pushItemInCurrentTurn (form.1 b.nextItemId)
  | .userMessage form =>
    let b :=
      if b.currentTurn.any fun turn => !turn.openedExplicitly && !(turn.sawCompaction && turn.items.isEmpty) then
        b.finishCurrentTurn
      else b
    b.takeItemId.pushItemInCurrentTurn (form.1 b.nextItemId)
  | .reasoning summary content => b.appendReasoning summary content
  | .upsertCurrent item => b.upsertItemInCurrentTurn item
  | .upsertIn turnId item => b.upsertItemInTurnId turnId item
  | .reviewMode turnId itemId form =>
    (b.itemIdOrNext itemId).1.upsertReviewModeItem turnId (form.1 (b.itemIdOrNext itemId).2)
  | .error payload => b.handleError payload
  | .aborted payload => b.handleTurnAborted payload
  | .started payload => b.handleTurnStarted payload
  | .complete payload => b.handleTurnComplete payload
  | .compacted => b.handleCompacted
  | .rollback numTurns => b.handleThreadRollback numTurns

end HistoryOp

section
variable (E : Externals) (D : ItemDisplay)

/-- The operation of `handle_materialized_item_lifecycle`. -/
def TurnItem.historyOp (turnId : String) (item : TurnItem) : HistoryOp :=
  match item with
  | .enteredReviewMode id hint =>
    .reviewMode (some turnId) (some id) ⟨fun id => .enteredReviewMode id hint, fun _ => rfl⟩
  | .exitedReviewMode id output =>
    .reviewMode (some turnId) (some id) ⟨fun id => .exitedReviewMode id (reviewOutputText D output), fun _ => rfl⟩
  | item => ((materializedItem D item).map (.upsertIn turnId)).getD .skip

def EventMsg.historyOp : EventMsg → HistoryOp
  | .userMessage payload =>
    .userMessage ⟨fun id => .userMessage id payload.clientId (buildUserInputs payload), fun _ => rfl⟩
  | .agentMessage payload =>
    if payload.message.isEmpty then .skip
    else .pushNext ⟨fun id => .agentMessage id payload.message payload.phase payload.memoryCitation, fun _ => rfl⟩
  | .agentReasoning text => if text.isEmpty then .skip else .reasoning [text] []
  | .agentReasoningRawContent text => if text.isEmpty then .skip else .reasoning [] [text]
  | .webSearchBegin callId => .upsertCurrent (webSearchBeginItem callId)
  | .webSearchEnd payload => .upsertCurrent (webSearchEndItem payload)
  | .execCommandBegin payload => .upsertIn payload.turnId (buildCommandExecutionBeginItem D payload)
  | .execCommandEnd payload => .upsertIn payload.turnId (buildCommandExecutionEndItem D payload)
  | .guardianAssessment payload => ((guardianItem D payload).map (.upsertNamed payload.turnId)).getD .skip
  | .applyPatchApprovalRequest payload => .upsertNamed payload.turnId (buildFileChangeBeginItem D payload)
  | .patchApplyBegin payload => .upsertNamed payload.turnId (buildFileChangeBeginItem D payload)
  | .patchApplyEnd payload => .upsertNamed payload.turnId (buildFileChangeEndItem D payload)
  | .dynamicToolCallRequest payload => .upsertNamed payload.turnId (dynamicToolCallRequestItem payload)
  | .dynamicToolCallResponse payload => .upsertNamed payload.turnId (dynamicToolCallResponseItem payload)
  | .mcpToolCallBegin payload => .upsertCurrent (mcpToolCallItem payload .inProgress none none none)
  | .mcpToolCallEnd payload => .upsertCurrent (mcpToolCallEndItem payload)
  | .viewImageToolCall callId path => .upsertCurrent (.imageView callId path)
  | .imageGenerationBegin callId => .upsertCurrent (imageGenerationBeginItem callId)
  | .imageGenerationEnd payload => .upsertCurrent (.imageGeneration payload)
  | .collabAgentSpawnBegin payload => .upsertCurrent (collabAgentSpawnBeginItem payload)
  | .collabAgentSpawnEnd payload => .upsertCurrent (collabAgentSpawnEndItem payload)
  | .collabAgentInteractionBegin payload => .upsertCurrent (collabAgentInteractionBeginItem payload)
  | .collabAgentInteractionEnd payload => .upsertCurrent (collabAgentInteractionEndItem payload)
  | .subAgentActivity payload =>
    .upsertCurrent (.subAgentActivity payload.id payload.kind payload.agentThreadId payload.agentPath)
  | .collabWaitingBegin payload => .upsertCurrent (collabWaitingBeginItem payload)
  | .collabWaitingEnd payload => .upsertCurrent (collabWaitingEndItem payload)
  | .collabCloseBegin payload => .upsertCurrent (collabAgentBeginItem .closeAgent payload)
  | .collabCloseEnd payload => .upsertCurrent (collabAgentEndItem .closeAgent payload)
  | .collabResumeBegin payload => .upsertCurrent (collabAgentBeginItem .resumeAgent payload)
  | .collabResumeEnd payload => .upsertCurrent (collabAgentEndItem .resumeAgent payload)
  | .contextCompacted => .pushNext ⟨.contextCompaction, fun _ => rfl⟩
  | .enteredReviewMode turnId itemId hint =>
    .reviewMode turnId itemId ⟨fun id => .enteredReviewMode id (hint.getD "Review requested."), fun _ => rfl⟩
  | .exitedReviewMode turnId itemId output =>
    .reviewMode turnId itemId ⟨fun id => .exitedReviewMode id (reviewOutputText D output), fun _ => rfl⟩
  | .itemStarted turnId item => item.historyOp D turnId
  | .itemCompleted turnId item => item.historyOp D turnId
  | .error payload => .error payload
  | .threadRolledBack numTurns => .rollback numTurns
  | .turnAborted payload => .aborted payload
  | .turnStarted payload => .started payload
  | .turnComplete payload => .complete payload
  | .other _ => .skip

/-- The operation of a record at position `rolloutIndex`. -/
def RolloutItem.historyOp (rolloutIndex : Nat) : RolloutItem → HistoryOp
  | .eventMsg event => event.historyOp D
  | .compacted _ => .compacted
  | .responseItem (.message id role content _ _) =>
    if role != "user" then .skip
    else match parseHookPromptFragments E content with
    | none => .skip
    | some fragments => .push (.hookPrompt (id.getD (D.newItemId rolloutIndex)) fragments)
  | _ => .skip

end

/-- Events other than starts and rollback markers change turns that exist, or open one for an item. -/
def HistoryOp.isBracket : HistoryOp → Bool
  | .started _ | .rollback _ => true
  | _ => false

theorem TurnItem.historyOp_isBracket (D : ItemDisplay) (turnId : String) (item : TurnItem) :
    (item.historyOp D turnId).isBracket = false := by
  cases item with
  | enteredReviewMode | exitedReviewMode => rfl
  | _ =>
    simp only [TurnItem.historyOp]
    cases materializedItem D _ <;> rfl

theorem HistoryOp.upsertNamed_isBracket (turnId : String) (item : ThreadItem) :
    (HistoryOp.upsertNamed turnId item).isBracket = false := by
  unfold upsertNamed
  split <;> rfl

theorem EventMsg.historyOp_isBracket (D : ItemDisplay) (event : EventMsg) :
    (event.historyOp D).isBracket = match event with
      | .turnStarted _ | .threadRolledBack _ => true
      | _ => false := by
  cases event with
  | agentMessage | agentReasoning | agentReasoningRawContent =>
    simp only [EventMsg.historyOp]
    split <;> rfl
  | guardianAssessment payload =>
    simp only [EventMsg.historyOp]
    cases guardianItem D payload with
    | none => rfl
    | some item => exact HistoryOp.upsertNamed_isBracket ..
  | applyPatchApprovalRequest | patchApplyBegin | patchApplyEnd | dynamicToolCallRequest
  | dynamicToolCallResponse => exact HistoryOp.upsertNamed_isBracket ..
  | itemStarted turnId item | itemCompleted turnId item => exact TurnItem.historyOp_isBracket D turnId item
  | _ => rfl

theorem RolloutItem.historyOp_message_isBracket (E : Externals) (D : ItemDisplay) (i : Nat) (item : ResponseItem) :
    (RolloutItem.historyOp E D i (.responseItem item)).isBracket = false := by
  cases item with
  | message id role content phase metadata =>
    simp only [RolloutItem.historyOp]
    split
    · rfl
    · cases parseHookPromptFragments E content <;> rfl
  | _ => rfl

theorem RolloutItem.of_historyOp_isBracket {E : Externals} {D : ItemDisplay} {i : Nat} {item : RolloutItem}
    (h : (item.historyOp E D i).isBracket = true) :
    (∃ payload, item = .eventMsg (.turnStarted payload)) ∨ ∃ numTurns, item = .eventMsg (.threadRolledBack numTurns) := by
  cases item with
  | eventMsg event =>
    have h' : (event.historyOp D).isBracket = true := h
    rw [EventMsg.historyOp_isBracket] at h'
    cases event with
    | turnStarted payload => exact .inl ⟨payload, rfl⟩
    | threadRolledBack numTurns => exact .inr ⟨numTurns, rfl⟩
    | _ => cases h'
  | responseItem item =>
    rw [historyOp_message_isBracket] at h
    cases h
  | _ => cases h

/-- Whether `finish_current_turn` keeps the turn. -/
def PendingTurn.isKept (turn : PendingTurn) : Bool :=
  !(turn.items.isEmpty && !turn.openedExplicitly && !turn.sawCompaction)

namespace ThreadHistoryBuilder

variable {E : Externals} {D : ItemDisplay}

theorem run_upsertNamed (b : ThreadHistoryBuilder) (turnId : String) (item : ThreadItem) :
    (HistoryOp.upsertNamed turnId item).run b = b.upsertItemInNamedTurn turnId item := by
  unfold HistoryOp.upsertNamed upsertItemInNamedTurn
  split <;> rfl

theorem handleMaterializedItemLifecycle_eq (b : ThreadHistoryBuilder) (turnId : String) (item : TurnItem) :
    b.handleMaterializedItemLifecycle D turnId item = (item.historyOp D turnId).run b := by
  cases item with
  | plan id text =>
    simp only [handleMaterializedItemLifecycle, TurnItem.historyOp]
    cases materializedItem D (.plan id text) <;> rfl
  | «extension» item => cases item <;> rfl
  | _ => rfl

theorem handleEvent_eq (b : ThreadHistoryBuilder) (event : EventMsg) :
    b.handleEvent D event = (event.historyOp D).run b := by
  cases event with
  | agentMessage payload =>
    simp only [handleEvent, handleAgentMessage, EventMsg.historyOp]
    split <;> rfl
  | agentReasoning text =>
    simp only [handleEvent, handleAgentReasoning, EventMsg.historyOp]
    split <;> rfl
  | agentReasoningRawContent text =>
    simp only [handleEvent, handleAgentReasoningRawContent, EventMsg.historyOp]
    split <;> rfl
  | guardianAssessment payload =>
    simp only [handleEvent, handleGuardianAssessment, EventMsg.historyOp]
    cases guardianItem D payload with
    | none => rfl
    | some item => exact (run_upsertNamed b _ _).symm
  | applyPatchApprovalRequest payload | patchApplyBegin payload | patchApplyEnd payload
  | dynamicToolCallRequest payload | dynamicToolCallResponse payload => exact (run_upsertNamed b _ _).symm
  | itemStarted turnId item | itemCompleted turnId item => exact handleMaterializedItemLifecycle_eq b turnId item
  | _ => rfl

/-- **Handling a record** is running its operation. -/
theorem dispatch_eq (b : ThreadHistoryBuilder) (item : RolloutItem) :
    b.dispatch E D item = (item.historyOp E D b.currentRolloutIndex).run b := by
  cases item with
  | eventMsg event => exact handleEvent_eq b event
  | responseItem item =>
    cases item with
    | message id role content phase metadata =>
      simp only [dispatch, handleResponseItem, RolloutItem.historyOp]
      split
      · rfl
      · cases parseHookPromptFragments E content <;> rfl
    | _ => rfl
  | _ => rfl

theorem handleRolloutItem_eq (b : ThreadHistoryBuilder) (item : RolloutItem) :
    b.handleRolloutItem E D item = (item.historyOp E D b.nextRolloutIndex).run b.nextRolloutItem :=
  dispatch_eq b.nextRolloutItem item

theorem run_append (b : ThreadHistoryBuilder) (items extra : List RolloutItem) :
    b.run E D (items ++ extra) = (b.run E D items).run E D extra := List.foldl_append

/-! ## What the operations leave alone -/

section frames
variable (b : ThreadHistoryBuilder) (turnId : String) (item : ThreadItem) (turn : Turn) (pending : PendingTurn)
  (turns : List Turn) (ids : List String)

@[simp] theorem recordChangedItem_turns : (b.recordChangedItem turnId item).turns = b.turns := rfl
@[simp] theorem recordChangedItem_currentTurn :
    (b.recordChangedItem turnId item).currentTurn = b.currentTurn := rfl
@[simp] theorem recordChangedTurn_turns : (b.recordChangedTurn turn).turns = b.turns := rfl
@[simp] theorem recordChangedTurn_currentTurn : (b.recordChangedTurn turn).currentTurn = b.currentTurn := rfl
@[simp] theorem recordRemovedTurnIds_turns : (b.recordRemovedTurnIds ids).turns = b.turns := rfl
@[simp] theorem setCurrentTurn_turns : (b.setCurrentTurn pending).turns = b.turns := rfl
@[simp] theorem setCurrentTurn_currentTurn : (b.setCurrentTurn pending).currentTurn = some pending := rfl
@[simp] theorem setTurns_turns : (b.setTurns turns).turns = turns := rfl
@[simp] theorem setTurns_currentTurn : (b.setTurns turns).currentTurn = b.currentTurn := rfl
@[simp] theorem takeItemId_turns : b.takeItemId.turns = b.turns := rfl
@[simp] theorem takeItemId_currentTurn : b.takeItemId.currentTurn = b.currentTurn := rfl
@[simp] theorem nextRolloutItem_turns : b.nextRolloutItem.turns = b.turns := rfl
@[simp] theorem nextRolloutItem_currentTurn : b.nextRolloutItem.currentTurn = b.currentTurn := rfl
@[simp] theorem openTurn_turns : (b.openTurn pending).turns = b.turns := rfl
@[simp] theorem openTurn_currentTurn : (b.openTurn pending).currentTurn = some pending := rfl

end frames

/-! ## The turns of a builder -/

/-- The finished turns and the open one. -/
def allTurns (b : ThreadHistoryBuilder) : List Turn := b.turns ++ (b.currentTurn.map (·.toTurn)).toList

theorem allTurns_open {b : ThreadHistoryBuilder} {turn : PendingTurn} (h : b.currentTurn = some turn) :
    b.allTurns = b.turns ++ [turn.toTurn] := by simp [allTurns, h]

theorem allTurns_none {b : ThreadHistoryBuilder} (h : b.currentTurn = none) : b.allTurns = b.turns := by
  simp [allTurns, h]

theorem finishCurrentTurn_open {b : ThreadHistoryBuilder} {turn : PendingTurn} (h : b.currentTurn = some turn)
    (hkept : turn.isKept = true) :
    b.finishCurrentTurn = { b with currentTurn := none, turns := b.turns ++ [turn.toTurn] } := by
  rw [PendingTurn.isKept, Bool.not_eq_true'] at hkept
  simp only [finishCurrentTurn, h, hkept]
  rfl

theorem finishCurrentTurn_none {b : ThreadHistoryBuilder} (h : b.currentTurn = none) :
    b.finishCurrentTurn = b := by simp only [finishCurrentTurn, h]

theorem finishCurrentTurn_turns {b : ThreadHistoryBuilder} (h : ∀ turn ∈ b.currentTurn, turn.isKept = true) :
    b.finishCurrentTurn.turns = b.allTurns ∧ b.finishCurrentTurn.currentTurn = none := by
  cases hcur : b.currentTurn with
  | none => exact ⟨by rw [finishCurrentTurn_none hcur, allTurns_none hcur], by rw [finishCurrentTurn_none hcur, hcur]⟩
  | some turn =>
    rw [finishCurrentTurn_open hcur (h turn hcur), allTurns_open hcur]
    exact ⟨rfl, rfl⟩

theorem ensureTurn_open {b : ThreadHistoryBuilder} {turn : PendingTurn} (h : b.currentTurn = some turn) :
    b.ensureTurn = b := by simp [ensureTurn, h]

theorem changeItemInCurrentTurn_open {b : ThreadHistoryBuilder} {turn : PendingTurn} (h : b.currentTurn = some turn)
    (f : Turn → Turn) (item : ThreadItem) :
    b.changeItemInCurrentTurn f item = (b.setCurrentTurn (turn.update f)).recordChangedItem turn.id item := by
  simp only [changeItemInCurrentTurn, h]

theorem changeCurrentTurn_open {b : ThreadHistoryBuilder} {turn : PendingTurn} (h : b.currentTurn = some turn)
    (f : Turn → Turn) :
    b.changeCurrentTurn f = (b.setCurrentTurn (turn.update f)).recordChangedTurn (f turn.toTurn) := by
  simp only [changeCurrentTurn, h]

theorem changeCurrentTurn_none {b : ThreadHistoryBuilder} (h : b.currentTurn = none) (f : Turn → Turn) :
    b.changeCurrentTurn f = b := by simp only [changeCurrentTurn, h]

end ThreadHistoryBuilder

end Codex
