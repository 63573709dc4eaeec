/-
The records of a rollout (`protocol/src/protocol.rs`, `protocol/src/models.rs`,
`protocol/src/items.rs`): what a session writes down, one item a line, and
what every reader of a thread (`Reconstruct`, `ModelContext`,
`ThreadHistory`, `ForkTurns`) reads back.

A field that the modelled code only carries along is kept as the text of its
JSON (`RawJson`); fields nothing here reads are left out.
-/
import Codex.Text

namespace Codex

/-- A value the modelled code carries and never looks into, by its JSON text. -/
abbrev RawJson := String

/-- `InternalChatMessageMetadataPassthrough` -/
structure MessageMetadata where
  turnId : Option String := none
  deriving DecidableEq

inductive ContentItem where
  | inputText (text : Text)
  | inputImage (imageUrl : String) (detail : Option String)
  | inputAudio (audioUrl : String)
  | outputText (text : Text)
  deriving DecidableEq

inductive AgentMessageInputContent where
  | inputText (text : Text)
  | encryptedContent (encryptedContent : String)
  deriving DecidableEq

inductive MessagePhase where
  | commentary
  | finalAnswer
  deriving DecidableEq

/-- `FunctionCallOutputBody` by its wire form, and the `success` flag. -/
structure FunctionCallOutputPayload where
  body : RawJson
  success : Option Bool
  deriving DecidableEq

inductive ResponseItem where
  | additionalTools (payload : RawJson)
  | message (id : Option String) (role : String) (content : List ContentItem)
      (phase : Option MessagePhase) (metadata : Option MessageMetadata)
  | agentMessage (id : Option String) (author recipient : String)
      (content : List AgentMessageInputContent) (metadata : Option MessageMetadata)
  | reasoning (payload : RawJson)
  | localShellCall (payload : RawJson)
  | functionCall (payload : RawJson)
  | toolSearchCall (payload : RawJson)
  | functionCallOutput (id : Option String) (callId : String) (output : FunctionCallOutputPayload)
      (metadata : Option MessageMetadata)
  | customToolCall (payload : RawJson)
  | customToolCallOutput (id : Option String) (callId : String) (name : Option String)
      (output : FunctionCallOutputPayload) (metadata : Option MessageMetadata)
  | toolSearchOutput (payload : RawJson)
  | webSearchCall (payload : RawJson)
  | imageGenerationCall (payload : RawJson)
  | compaction (payload : RawJson)
  | compactionTrigger
  | contextCompaction (payload : RawJson)
  | other
  deriving DecidableEq

/-- An `AgentPath` is its text. -/
structure InterAgentCommunication where
  id : Option String := none
  author : String
  recipient : String
  otherRecipients : List String := []
  content : Text
  encryptedContent : Option String := none
  metadata : Option MessageMetadata := none
  triggerTurn : Bool
  deriving DecidableEq

def InterAgentCommunication.toModelInputItem (c : InterAgentCommunication) : ResponseItem :=
  let content := match c.encryptedContent with
    | some encryptedContent =>
      let messageType := if c.triggerTurn then "NEW_TASK" else "MESSAGE"
      [.inputText ("Message Type: " ++ messageType ++ "\nTask name: " ++ c.recipient ++ "\nSender: " ++
        c.author ++ "\nPayload:\n").toList, .encryptedContent encryptedContent]
    | none => [.inputText c.content]
  .agentMessage c.id c.author c.recipient content c.metadata

/-- `serde_json::Value`; an object is its entries in the order of their keys. -/
inductive Value where
  | null
  | bool (b : Bool)
  | number (text : String)
  | string (s : String)
  | array (items : List Value)
  | object (entries : List (String × Value))

structure SessionContextWindow where
  windowId : String
  deriving DecidableEq

inductive ThreadHistoryMode where
  | legacy
  | paginated
  deriving DecidableEq

structure SessionMeta where
  contextWindow : Option SessionContextWindow := none
  historyMode : ThreadHistoryMode := .legacy
  subagentHistoryStartOrdinal : Option Nat := none
  payload : RawJson := ""
  deriving DecidableEq

/-- The metadata with what is known of the git repository when it is written. -/
structure SessionMetaLine extends SessionMeta where
  git : Option RawJson := none
  deriving DecidableEq

structure CompactedItem where
  message : Text
  replacementHistory : Option (List ResponseItem) := none
  windowNumber : Option Nat := none
  firstWindowId : Option String := none
  previousWindowId : Option String := none
  windowId : Option String := none
  deriving DecidableEq

/-- `payload` holds the fields reconstruction copies without reading them. -/
structure TurnContextItem where
  turnId : Option String := none
  model : String
  compHash : Option String := none
  realtimeActive : Option Bool := none
  payload : RawJson := ""
  deriving DecidableEq

structure WorldStateItem where
  full : Bool
  state : Value

/-! ## Turn items -/

structure HookPromptFragment where
  text : Text
  hookRunId : Text
  deriving DecidableEq

inductive ExecCommandStatus where
  | inProgress
  | completed
  | failed
  | declined
  deriving DecidableEq

inductive AgentStatus where
  | pendingInit
  | running
  | interrupted
  | completed (message : Option String)
  | errored (message : String)
  | shutdown
  | notFound
  deriving DecidableEq

inductive CollabAgentTool where
  | spawnAgent
  | sendInput
  | resumeAgent
  | wait
  | closeAgent
  deriving DecidableEq

/-- The statuses of tool calls and patches that tool items report. -/
inductive ToolCallStatus where
  | inProgress
  | completed
  | failed
  | declined
  deriving DecidableEq

structure CommandExecutionItem where
  id : String
  processId : Option String
  command : List String
  cwd : String
  parsedCmd : RawJson
  source : RawJson
  status : ExecCommandStatus
  aggregatedOutput : Option String
  exitCode : Option Int
  durationMillis : Option Nat
  deriving DecidableEq

structure DynamicToolCallItem where
  id : String
  «namespace» : Option String
  tool : String
  arguments : RawJson
  status : ToolCallStatus
  contentItems : Option RawJson
  success : Option Bool
  durationMillis : Option Nat
  deriving DecidableEq

structure CollabAgentToolCallItem where
  id : String
  tool : CollabAgentTool
  status : ToolCallStatus
  senderThreadId : String
  receiverThreadIds : List String
  prompt : Option String
  model : Option String
  reasoningEffort : Option String
  agentsStates : List (String × AgentStatus)
  deriving DecidableEq

structure SubAgentActivityItem where
  id : String
  kind : RawJson
  agentThreadId : String
  agentPath : String
  deriving DecidableEq

structure WebSearchItem where
  id : String
  query : String
  action : Option RawJson
  results : Option RawJson
  deriving DecidableEq

structure ImageGenerationItem where
  id : String
  status : String
  revisedPrompt : Option String
  result : String
  savedPath : Option String
  deriving DecidableEq

structure SleepItem where
  id : String
  payload : RawJson
  deriving DecidableEq

inductive ExtensionItem where
  | imageGeneration (item : ImageGenerationItem)
  | sleep (item : SleepItem)
  | webSearch (item : WebSearchItem)
  deriving DecidableEq

/-- `codex_protocol::items::TurnItem`. Items that the history builder takes
from other events keep only their id. -/
inductive TurnItem where
  | userMessage (id : String)
  | hookPrompt (id : String) (fragments : List HookPromptFragment)
  | agentMessage (id : String)
  | plan (id : String) (text : String)
  | reasoning (id : String)
  | commandExecution (item : CommandExecutionItem)
  | dynamicToolCall (item : DynamicToolCallItem)
  | collabAgentToolCall (item : CollabAgentToolCallItem)
  | subAgentActivity (item : SubAgentActivityItem)
  | webSearch (id : String)
  | imageView (id : String)
  | extension (item : ExtensionItem)
  | imageGeneration (id : String)
  | enteredReviewMode (id : String) (userFacingHint : String)
  | exitedReviewMode (id : String) (reviewOutput : Option RawJson)
  | fileChange (id : String)
  | mcpToolCall (id : String)
  | contextCompaction (id : String)
  deriving DecidableEq

/-! ## Events -/

structure UserMessageEvent where
  clientId : Option String := none
  message : Text
  images : Option (List String) := none
  imageDetails : List (Option String) := []
  localImages : List String := []
  localImageDetails : List (Option String) := []
  audio : Option (List String) := none
  localAudio : List String := []
  textElements : List RawJson := []
  deriving DecidableEq

structure AgentMessageEvent where
  message : String
  phase : Option MessagePhase := none
  memoryCitation : Option RawJson := none
  deriving DecidableEq

structure WebSearchEndEvent where
  callId : String
  query : String
  action : RawJson
  results : Option RawJson
  deriving DecidableEq

structure ExecCommandBeginEvent where
  callId : String
  processId : Option String
  turnId : String
  command : List String
  cwd : String
  parsedCmd : RawJson
  source : RawJson
  deriving DecidableEq

structure ExecCommandEndEvent extends ExecCommandBeginEvent where
  aggregatedOutput : String
  exitCode : Int
  durationMillis : Nat
  status : ExecCommandStatus
  deriving DecidableEq

inductive GuardianAssessmentStatus where
  | inProgress
  | approved
  | denied
  | timedOut
  | aborted
  deriving DecidableEq

inductive GuardianAssessmentAction where
  | command (command : String) (cwd : String)
  | execve (program : String) (argv : List String) (cwd : String)
  | other (payload : RawJson)
  deriving DecidableEq

structure GuardianAssessmentEvent where
  targetItemId : Option String
  turnId : String
  status : GuardianAssessmentStatus
  action : GuardianAssessmentAction
  deriving DecidableEq

/-- The fields `ApplyPatchApprovalRequestEvent` and `PatchApplyBeginEvent` share. -/
structure PatchEvent where
  callId : String
  turnId : String
  changes : RawJson
  deriving DecidableEq

structure PatchApplyEndEvent extends PatchEvent where
  status : ToolCallStatus
  deriving DecidableEq

structure DynamicToolCallRequest where
  callId : String
  turnId : String
  «namespace» : Option String
  tool : String
  arguments : RawJson
  deriving DecidableEq

structure DynamicToolCallResponseEvent extends DynamicToolCallRequest where
  contentItems : RawJson
  success : Bool
  durationMillis : Nat
  deriving DecidableEq

structure McpInvocation where
  server : String
  tool : String
  arguments : Option RawJson
  deriving DecidableEq

structure McpToolCallBeginEvent where
  callId : String
  invocation : McpInvocation
  connectorId : Option String
  mcpAppResourceUri : Option String
  linkId : Option String
  appName : Option String
  actionName : Option String
  pluginId : Option String
  deriving DecidableEq

/-- `Ok` of a result with its `is_error` flag, or `Err` of a message. -/
inductive McpResult where
  | ok (value : RawJson) (isError : Option Bool)
  | err (message : String)
  deriving DecidableEq

structure McpToolCallEndEvent extends McpToolCallBeginEvent where
  durationMillis : Nat
  result : McpResult
  deriving DecidableEq

structure CollabAgentSpawnBeginEvent where
  callId : String
  senderThreadId : String
  prompt : String
  model : String
  reasoningEffort : String
  deriving DecidableEq

structure CollabAgentSpawnEndEvent extends CollabAgentSpawnBeginEvent where
  newThreadId : Option String
  status : AgentStatus
  deriving DecidableEq

structure CollabAgentInteractionBeginEvent where
  callId : String
  senderThreadId : String
  receiverThreadId : String
  prompt : String
  deriving DecidableEq

structure CollabAgentInteractionEndEvent extends CollabAgentInteractionBeginEvent where
  status : AgentStatus
  deriving DecidableEq

structure CollabWaitingBeginEvent where
  callId : String
  senderThreadId : String
  receiverThreadIds : List String
  deriving DecidableEq

/-- `statuses` is a map from thread ids, listed once each. -/
structure CollabWaitingEndEvent where
  callId : String
  senderThreadId : String
  statuses : List (String × AgentStatus)
  deriving DecidableEq

/-- The fields the begin events of closing and of resuming an agent share. -/
structure CollabAgentEvent where
  callId : String
  senderThreadId : String
  receiverThreadId : String
  deriving DecidableEq

structure CollabAgentEndEvent extends CollabAgentEvent where
  status : AgentStatus
  deriving DecidableEq

inductive CodexErrorInfo where
  | activeTurnNotSteerable (payload : RawJson)
  | threadRollbackFailed
  | other (payload : RawJson)
  deriving DecidableEq

structure ErrorEvent where
  message : String
  codexErrorInfo : Option CodexErrorInfo := none
  deriving DecidableEq

structure TurnStartedEvent where
  turnId : String
  startedAt : Option Int := none
  deriving DecidableEq

structure TurnCompleteEvent where
  turnId : String
  completedAt : Option Int := none
  durationMs : Option Int := none
  deriving DecidableEq

structure TurnAbortedEvent where
  turnId : Option String := none
  completedAt : Option Int := none
  durationMs : Option Int := none
  deriving DecidableEq

/-- `EventMsg`; `other` stands for the variants no modelled reader handles. -/
inductive EventMsg where
  | userMessage (payload : UserMessageEvent)
  | agentMessage (payload : AgentMessageEvent)
  | agentReasoning (text : String)
  | agentReasoningRawContent (text : String)
  | webSearchBegin (callId : String)
  | webSearchEnd (payload : WebSearchEndEvent)
  | execCommandBegin (payload : ExecCommandBeginEvent)
  | execCommandEnd (payload : ExecCommandEndEvent)
  | guardianAssessment (payload : GuardianAssessmentEvent)
  | applyPatchApprovalRequest (payload : PatchEvent)
  | patchApplyBegin (payload : PatchEvent)
  | patchApplyEnd (payload : PatchApplyEndEvent)
  | dynamicToolCallRequest (payload : DynamicToolCallRequest)
  | dynamicToolCallResponse (payload : DynamicToolCallResponseEvent)
  | mcpToolCallBegin (payload : McpToolCallBeginEvent)
  | mcpToolCallEnd (payload : McpToolCallEndEvent)
  | viewImageToolCall (callId : String) (path : String)
  | imageGenerationBegin (callId : String)
  | imageGenerationEnd (payload : ImageGenerationItem)
  | collabAgentSpawnBegin (payload : CollabAgentSpawnBeginEvent)
  | collabAgentSpawnEnd (payload : CollabAgentSpawnEndEvent)
  | collabAgentInteractionBegin (payload : CollabAgentInteractionBeginEvent)
  | collabAgentInteractionEnd (payload : CollabAgentInteractionEndEvent)
  | subAgentActivity (payload : SubAgentActivityItem)
  | collabWaitingBegin (payload : CollabWaitingBeginEvent)
  | collabWaitingEnd (payload : CollabWaitingEndEvent)
  | collabCloseBegin (payload : CollabAgentEvent)
  | collabCloseEnd (payload : CollabAgentEndEvent)
  | collabResumeBegin (payload : CollabAgentEvent)
  | collabResumeEnd (payload : CollabAgentEndEvent)
  | contextCompacted
  | enteredReviewMode (turnId itemId userFacingHint : Option String)
  | exitedReviewMode (turnId itemId : Option String) (reviewOutput : Option RawJson)
  | itemStarted (turnId : String) (item : TurnItem)
  | itemCompleted (turnId : String) (item : TurnItem)
  | error (payload : ErrorEvent)
  | threadRolledBack (numTurns : UInt32)
  | turnAborted (payload : TurnAbortedEvent)
  | turnStarted (payload : TurnStartedEvent)
  | turnComplete (payload : TurnCompleteEvent)
  | other (payload : RawJson)
  deriving DecidableEq

inductive RolloutItem where
  | sessionMeta (line : SessionMetaLine)
  | responseItem (item : ResponseItem)
  | interAgentCommunication (communication : InterAgentCommunication)
  | interAgentCommunicationMetadata (triggerTurn : Bool)
  | compacted (compacted : CompactedItem)
  | turnContext (ctx : TurnContextItem)
  | worldState (worldState : WorldStateItem)
  | eventMsg (event : EventMsg)

end Codex
