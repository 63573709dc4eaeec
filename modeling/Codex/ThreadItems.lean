/-
The items a thread shows its clients (`app-server-protocol`, `protocol/v2/item.rs`
and `protocol/item_builders.rs`), and how a record of the rollout is turned
into one.

What only changes how a value is displayed (quoting a command line, reading
it into actions, rendering a diff or a review) is a parameter.
-/
import Codex.ContextManager

namespace Codex

/-- The display functions, and the identifiers drawn for prompts that have none. -/
structure ItemDisplay where
  shlexJoin : List String → String
  commandActionsForPathUri : RawJson → String → List RawJson
  parseCommandActions : List String → String → List RawJson
  unknownCommandAction : String → RawJson
  convertPatchChanges : RawJson → RawJson
  renderReviewOutputText : RawJson → String
  newItemId : Nat → String

/-- Displays that show the text they are given. -/
def ItemDisplay.plain : ItemDisplay where
  shlexJoin := String.intercalate " "
  commandActionsForPathUri parsedCmd _ := [parsedCmd]
  parseCommandActions _ _ := []
  unknownCommandAction command := command
  convertPatchChanges changes := changes
  renderReviewOutputText output := output
  newItemId n := "prompt-" ++ toString n

inductive UserInput where
  | text (text : Text) (textElements : List RawJson)
  | image (url : String) (detail : Option String)
  | localImage (path : String) (detail : Option String)
  | audio (url : String)
  | localAudio (path : String)
  deriving DecidableEq

inductive CollabAgentStatus where
  | pendingInit
  | running
  | interrupted
  | completed
  | errored
  | shutdown
  | notFound
  deriving DecidableEq

structure CollabAgentState where
  status : CollabAgentStatus
  message : Option String
  deriving DecidableEq

/-- `CollabAgentState::from` -/
def CollabAgentState.ofStatus : AgentStatus → CollabAgentState
  | .pendingInit => ⟨.pendingInit, none⟩
  | .running => ⟨.running, none⟩
  | .interrupted => ⟨.interrupted, none⟩
  | .completed message => ⟨.completed, message⟩
  | .errored message => ⟨.errored, some message⟩
  | .shutdown => ⟨.shutdown, none⟩
  | .notFound => ⟨.notFound, none⟩

structure McpToolCallAppContext where
  connectorId : String
  linkId : Option String
  resourceUri : Option String
  appName : Option String
  actionName : Option String
  deriving DecidableEq

inductive ThreadItem where
  | userMessage (id : String) (clientId : Option String) (content : List UserInput)
  | hookPrompt (id : String) (fragments : List HookPromptFragment)
  | agentMessage (id : String) (text : String) (phase : Option MessagePhase) (memoryCitation : Option RawJson)
  | plan (id : String) (text : String)
  | reasoning (id : String) (summary : List String) (content : List String)
  | commandExecution (id : String) (command : String) (cwd : String) (processId : Option String)
      (source : RawJson) (status : ExecCommandStatus) (commandActions : List RawJson)
      (aggregatedOutput : Option String) (exitCode : Option Int) (durationMs : Option Nat)
  | fileChange (id : String) (changes : RawJson) (status : ToolCallStatus)
  | mcpToolCall (id : String) (server tool : String) (status : ToolCallStatus) (arguments : RawJson)
      (appContext : Option McpToolCallAppContext) (mcpAppResourceUri pluginId : Option String)
      (result : Option RawJson) (error : Option String) (durationMs : Option Nat)
  | dynamicToolCall (id : String) («namespace» : Option String) (tool : String) (arguments : RawJson)
      (status : ToolCallStatus) (contentItems : Option RawJson) (success : Option Bool) (durationMs : Option Nat)
  | collabAgentToolCall (id : String) (tool : CollabAgentTool) (status : ToolCallStatus)
      (senderThreadId : String) (receiverThreadIds : List String) (prompt model reasoningEffort : Option String)
      (agentsStates : List (String × CollabAgentState))
  | subAgentActivity (id : String) (kind : RawJson) (agentThreadId agentPath : String)
  | webSearch (item : WebSearchItem)
  | imageView (id : String) (path : String)
  | sleep (item : SleepItem)
  | imageGeneration (item : ImageGenerationItem)
  | enteredReviewMode (id : String) (review : String)
  | exitedReviewMode (id : String) (review : String)
  | contextCompaction (id : String)
  deriving DecidableEq

def ThreadItem.id : ThreadItem → String
  | .userMessage id .. | .hookPrompt id .. | .agentMessage id .. | .plan id .. | .reasoning id ..
  | .commandExecution id .. | .fileChange id .. | .mcpToolCall id .. | .dynamicToolCall id ..
  | .collabAgentToolCall id .. | .subAgentActivity id .. | .imageView id .. | .enteredReviewMode id ..
  | .exitedReviewMode id .. | .contextCompaction id => id
  | .webSearch item => item.id
  | .sleep item => item.id
  | .imageGeneration item => item.id

/-- `i64::try_from(duration.as_millis()).ok()` -/
def durationMs (millis : Nat) : Option Nat := if millis < 2 ^ 63 then some millis else none

variable (D : ItemDisplay)

def reviewFallbackMessage : String := "Reviewer failed to output a response."

def reviewOutputText (output : Option RawJson) : String :=
  (output.map D.renderReviewOutputText).getD reviewFallbackMessage

/-- `build_file_change_approval_request_item` and `build_file_change_begin_item` -/
def buildFileChangeBeginItem (payload : PatchEvent) : ThreadItem :=
  .fileChange payload.callId (D.convertPatchChanges payload.changes) .inProgress

def buildFileChangeEndItem (payload : PatchApplyEndEvent) : ThreadItem :=
  .fileChange payload.callId (D.convertPatchChanges payload.changes) payload.status

def buildCommandExecutionBeginItem (payload : ExecCommandBeginEvent) : ThreadItem :=
  .commandExecution payload.callId (D.shlexJoin payload.command) payload.cwd payload.processId payload.source
    .inProgress (D.commandActionsForPathUri payload.parsedCmd payload.cwd) none none none

def buildCommandExecutionEndItem (payload : ExecCommandEndEvent) : ThreadItem :=
  let aggregatedOutput := if payload.aggregatedOutput.isEmpty then none else some payload.aggregatedOutput
  .commandExecution payload.callId (D.shlexJoin payload.command) payload.cwd payload.processId payload.source
    payload.status (D.commandActionsForPathUri payload.parsedCmd payload.cwd) aggregatedOutput
    (some payload.exitCode) (some (min payload.durationMillis (2 ^ 63 - 1)))

def buildItemFromGuardianEvent (assessment : GuardianAssessmentEvent) (status : ExecCommandStatus) :
    Option ThreadItem :=
  match assessment.action with
  | .command command cwd => assessment.targetItemId.map fun id =>
    .commandExecution id command cwd none "agent" status [D.unknownCommandAction command] none none none
  | .execve program argv cwd => assessment.targetItemId.map fun id =>
    let argv := program :: argv.drop 1
    let command := D.shlexJoin argv
    let parsed := D.parseCommandActions argv cwd
    let commandActions := if parsed.isEmpty then [D.unknownCommandAction command] else parsed
    .commandExecution id command cwd none "agent" status commandActions none none none
  | .other _ => none

/-- `ThreadItem::from`, for the items that `handle_materialized_item_lifecycle` upserts. -/
def materializedItem : TurnItem → Option ThreadItem
  | .plan id text => if text.isEmpty then none else some (.plan id text)
  | .hookPrompt id fragments => some (.hookPrompt id fragments)
  | .commandExecution item =>
    some (.commandExecution item.id (D.shlexJoin item.command) item.cwd item.processId item.source item.status
      (D.commandActionsForPathUri item.parsedCmd item.cwd) (item.aggregatedOutput.filter (!·.isEmpty))
      item.exitCode (item.durationMillis.bind durationMs))
  | .dynamicToolCall item =>
    some (.dynamicToolCall item.id item.namespace item.tool item.arguments item.status item.contentItems
      item.success (item.durationMillis.bind durationMs))
  | .collabAgentToolCall item =>
    some (.collabAgentToolCall item.id item.tool item.status item.senderThreadId item.receiverThreadIds
      item.prompt item.model item.reasoningEffort
      (item.agentsStates.map fun (id, status) => (id, CollabAgentState.ofStatus status)))
  | .subAgentActivity item => some (.subAgentActivity item.id item.kind item.agentThreadId item.agentPath)
  | .extension (.imageGeneration item) => some (.imageGeneration item)
  | .extension (.sleep item) => some (.sleep item)
  | .extension (.webSearch item) => some (.webSearch item)
  | .enteredReviewMode id userFacingHint => some (.enteredReviewMode id userFacingHint)
  | .exitedReviewMode id reviewOutput => some (.exitedReviewMode id (reviewOutputText D reviewOutput))
  | .userMessage _ | .agentMessage _ | .reasoning _ | .webSearch _ | .imageView _ | .imageGeneration _
  | .fileChange _ | .mcpToolCall _ | .contextCompaction _ => none

/-! ## The items the history handlers build -/

def webSearchBeginItem (callId : String) : ThreadItem :=
  .webSearch { id := callId, query := "", action := none, results := none }

def webSearchEndItem (payload : WebSearchEndEvent) : ThreadItem :=
  .webSearch { id := payload.callId, query := payload.query, action := some payload.action, results := payload.results }

def guardianStatus : GuardianAssessmentStatus → Option ExecCommandStatus
  | .inProgress => some .inProgress
  | .denied | .aborted => some .declined
  | .timedOut => some .failed
  | .approved => none

def guardianItem (payload : GuardianAssessmentEvent) : Option ThreadItem :=
  (guardianStatus payload.status).bind (buildItemFromGuardianEvent D payload)

def dynamicToolCallRequestItem (payload : DynamicToolCallRequest) : ThreadItem :=
  .dynamicToolCall payload.callId payload.namespace payload.tool payload.arguments .inProgress none none none

def dynamicToolCallResponseItem (payload : DynamicToolCallResponseEvent) : ThreadItem :=
  .dynamicToolCall payload.callId payload.namespace payload.tool payload.arguments
    (if payload.success then .completed else .failed) (some payload.contentItems) (some payload.success)
    (durationMs payload.durationMillis)

def mcpToolCallItem (payload : McpToolCallBeginEvent) (status : ToolCallStatus) (result : Option RawJson)
    (error : Option String) (durationMs : Option Nat) : ThreadItem :=
  .mcpToolCall payload.callId payload.invocation.server payload.invocation.tool status
    (payload.invocation.arguments.getD "null")
    (payload.connectorId.map fun connectorId =>
      { connectorId, linkId := payload.linkId, resourceUri := payload.mcpAppResourceUri,
        appName := payload.appName, actionName := payload.actionName })
    payload.mcpAppResourceUri payload.pluginId result error durationMs

def mcpToolCallEndItem (payload : McpToolCallEndEvent) : ThreadItem :=
  match payload.result with
  | .ok value isError =>
    mcpToolCallItem payload.toMcpToolCallBeginEvent (if isError.getD false then .failed else .completed)
      (some value) none (durationMs payload.durationMillis)
  | .err message =>
    mcpToolCallItem payload.toMcpToolCallBeginEvent .failed none (some message) (durationMs payload.durationMillis)

def imageGenerationBeginItem (callId : String) : ThreadItem :=
  .imageGeneration { id := callId, status := "", revisedPrompt := none, result := "", savedPath := none }

def collabFailed : AgentStatus → Bool
  | .errored _ | .notFound => true
  | _ => false

def collabStatus (status : AgentStatus) : ToolCallStatus := if collabFailed status then .failed else .completed

def collabAgentSpawnBeginItem (payload : CollabAgentSpawnBeginEvent) : ThreadItem :=
  .collabAgentToolCall payload.callId .spawnAgent .inProgress payload.senderThreadId []
    (some payload.prompt) (some payload.model) (some payload.reasoningEffort) []

/-- A spawn without a new thread has failed, whatever its status says. -/
def collabAgentSpawnEndItem (payload : CollabAgentSpawnEndEvent) : ThreadItem :=
  .collabAgentToolCall payload.callId .spawnAgent
    (if collabFailed payload.status || payload.newThreadId.isNone then .failed else .completed)
    payload.senderThreadId payload.newThreadId.toList
    (some payload.prompt) (some payload.model) (some payload.reasoningEffort)
    (payload.newThreadId.toList.map fun id => (id, .ofStatus payload.status))

def collabAgentInteractionBeginItem (payload : CollabAgentInteractionBeginEvent) : ThreadItem :=
  .collabAgentToolCall payload.callId .sendInput .inProgress payload.senderThreadId
    [payload.receiverThreadId] (some payload.prompt) none none []

def collabAgentInteractionEndItem (payload : CollabAgentInteractionEndEvent) : ThreadItem :=
  .collabAgentToolCall payload.callId .sendInput (collabStatus payload.status) payload.senderThreadId
    [payload.receiverThreadId] (some payload.prompt) none none [(payload.receiverThreadId, .ofStatus payload.status)]

def collabWaitingBeginItem (payload : CollabWaitingBeginEvent) : ThreadItem :=
  .collabAgentToolCall payload.callId .wait .inProgress payload.senderThreadId payload.receiverThreadIds
    none none none []

def collabWaitingEndItem (payload : CollabWaitingEndEvent) : ThreadItem :=
  .collabAgentToolCall payload.callId .wait
    (if payload.statuses.any (collabFailed ·.2) then .failed else .completed) payload.senderThreadId
    ((payload.statuses.map (·.1)).mergeSort (· ≤ ·)) none none none
    (payload.statuses.map fun (id, status) => (id, .ofStatus status))

/-- The begin events of closing and of resuming an agent. -/
def collabAgentBeginItem (tool : CollabAgentTool) (payload : CollabAgentEvent) : ThreadItem :=
  .collabAgentToolCall payload.callId tool .inProgress payload.senderThreadId [payload.receiverThreadId] none none
    none []

def collabAgentEndItem (tool : CollabAgentTool) (payload : CollabAgentEndEvent) : ThreadItem :=
  .collabAgentToolCall payload.callId tool (collabStatus payload.status) payload.senderThreadId
    [payload.receiverThreadId] none none none [(payload.receiverThreadId, .ofStatus payload.status)]

/-- `parse_hook_prompt_message`, the fragments. -/
def parseHookPromptFragments (E : Externals) (content : List ContentItem) : Option (List HookPromptFragment) :=
  let fragments := content.mapM fun item => match item with
    | .inputText text => parseHookPromptFragment E text
    | _ => none
  fragments.filter (!·.isEmpty)

def buildUserInputs (payload : UserMessageEvent) : List UserInput :=
  (if (Text.trim payload.message).isEmpty then [] else [.text payload.message payload.textElements]) ++
  ((payload.images.getD []).mapIdx fun idx url => .image url ((payload.imageDetails[idx]?).join)) ++
  (payload.localImages.mapIdx fun idx path => .localImage path ((payload.localImageDetails[idx]?).join)) ++
  ((payload.audio.getD []).map .audio) ++
  payload.localAudio.map .localAudio

end Codex
