/-
The reduction of the model-facing payloads of a rollout trace into one
conversation: full and incremental inference requests, responses, and compaction
checkpoints. What the reducer does besides (tool calls, code cells, edges between
agents) is a state of its own, `rest`; of the conversation it only adds producers
to items.

Source: rollout-trace/src/reducer/conversation.rs, inference.rs, compaction.rs,
thread.rs, mod.rs.
-/
import Codex.TraceItems
import Codex.Lib.SortedEntries

namespace Codex.Trace

structure InferenceCall where
  inferenceCallId : String
  threadId : String
  codexTurnId : String
  responseId : Option String
  requestItemIds : List String
  responseItemIds : List String
  usage : Option TokenUsage
  deriving DecidableEq

structure Compaction where
  compactionId : String
  threadId : String
  codexTurnId : String
  installedAtUnixMs : Int
  markerItemId : String
  inputItemIds : List String
  replacementItemIds : List String
  deriving DecidableEq

/-- The maps are by their keys in order; of a thread its `conversation_item_ids` are kept, of a turn its thread. -/
structure TraceReducer (R : Type) where
  threads : List (String × List String) := []
  codexTurns : List (String × String) := []
  conversationItems : List (String × ConversationItem) := []
  inferenceCalls : List (String × InferenceCall) := []
  compactions : List (String × Compaction) := []
  nextConversationItemOrdinal : Nat := 1
  threadConversationSnapshots : List (String × List String) := []
  pendingCompactionReplacementItemIds : List (String × List String) := []
  rest : R

/-- What the rest becomes, and the producers it adds to items. -/
abbrev Effect (R : Type) := R × List (String × ProducerRef)

/-- The other reducers, where a conversation item calls them: `attach` is `attach_model_visible_tool_item`,
`attach_model_visible_code_cell_item` and `resolve_pending_agent_edges_for_item` in turn. -/
structure Linking (R : Type) where
  attach : TraceReducer R → String → Option String → ConversationItemKind → Except String (Effect R)
  flushPendingCodeCellStarts : TraceReducer R → Except String (Effect R)

namespace TraceReducer

variable {R : Type}

/-! ## The items -/

def itemMatches (s : TraceReducer R) (itemId : String) (normalized : NormalizedConversationItem) : Bool :=
  match s.conversationItems.lookup itemId with
  | none => false
  | some item => conversationItemMatches item normalized

def findMatchingSnapshotItem (s : TraceReducer R) (previousSnapshot usedItemIds : List String)
    (normalized : NormalizedConversationItem) : Option String :=
  previousSnapshot.find? fun itemId => decide (itemId ∉ usedItemIds) && s.itemMatches itemId normalized

def ensureCallIdConsistency (s : TraceReducer R) (threadId : String) (normalized : NormalizedConversationItem) :
    Except String Unit :=
  match normalized.callId with
  | none => .ok ()
  | some callId =>
    if s.conversationItems.any fun entry => entry.2.threadId = threadId && entry.2.callId = some callId &&
        entry.2.kind = normalized.kind && ! conversationItemMatches entry.2 normalized then
      .error s!"model-visible call id {callId} was reused with different content"
    else .ok ()

def conversationItemId (ordinal : Nat) : String := "conversation_item:" ++ toString ordinal

def insertItem (s : TraceReducer R) (itemId : String) (item : ConversationItem) : TraceReducer R :=
  { s with conversationItems := SortedEntries.insert itemId item s.conversationItems }

def createConversationItem (s : TraceReducer R) (threadId : String) (codexTurnId : Option String)
    (firstSeenAtUnixMs : Int) (item : NormalizedConversationItem) (producedBy : List ProducerRef) :
    String × TraceReducer R :=
  let itemId := conversationItemId s.nextConversationItemOrdinal
  let s := { s with nextConversationItemOrdinal := s.nextConversationItemOrdinal + 1 }
  (itemId, s.insertItem itemId {
    itemId
    threadId
    codexTurnId
    firstSeenAtUnixMs
    role := item.role
    channel := item.channel
    kind := item.kind
    agentMessage := item.agentMessage
    body := item.body
    callId := item.callId
    producedBy })

def addProducers (producedBy : List ProducerRef) (item : ConversationItem) : ConversationItem :=
  producedBy.foldl
    (fun item producer =>
      if producer ∈ item.producedBy then item else { item with producedBy := item.producedBy ++ [producer] }) item

def updateConversationItemFromSighting (s : TraceReducer R) (itemId : String) (normalized : NormalizedConversationItem)
    (producedBy : List ProducerRef) : Except String (TraceReducer R) :=
  match s.conversationItems.lookup itemId with
  | none => .error s!"conversation item {itemId} was referenced before it was created"
  | some item => do
    let body ← if item.kind = .reasoning then mergeReasoningBody item.body normalized.body else .ok item.body
    .ok (s.insertItem itemId (addProducers producedBy { item with body }))

/-- What another reducer has done is taken over. -/
def withEffect (s : TraceReducer R) (effect : Effect R) : TraceReducer R :=
  effect.2.foldl
    (fun s pushed =>
      match s.conversationItems.lookup pushed.1 with
      | none => s
      | some item => s.insertItem pushed.1 (addProducers [pushed.2] item))
    { s with rest := effect.1 }

def sightItem (linking : Linking R) (s : TraceReducer R) (itemId : String) (item : NormalizedConversationItem)
    (producedBy : List ProducerRef) : Except String (TraceReducer R) := do
  let s ← s.updateConversationItemFromSighting itemId item producedBy
  let effect ← linking.attach s itemId item.callId item.kind
  .ok (s.withEffect effect)

/-! ## Reconciliation -/

inductive ReconcileMode where
  | fullSnapshot
  | appendOnly
  deriving DecidableEq

structure ReconcileItems where
  threadId : String
  codexTurnId : String
  wallTimeUnixMs : Int
  producedBy : List ProducerRef
  startIndex : Nat
  mode : ReconcileMode
  snapshotOverride : Option (List String)

/-- What the items are compared with. -/
def previousSnapshot (s : TraceReducer R) (threadId : String) (snapshotOverride : Option (List String)) : List String :=
  snapshotOverride.getD ((s.threadConversationSnapshots.lookup threadId).getD [])

def createItem (s : TraceReducer R) (context : ReconcileItems) (item : NormalizedConversationItem) :
    String × TraceReducer R :=
  s.createConversationItem context.threadId (some context.codexTurnId) context.wallTimeUnixMs item context.producedBy

/-- The item that has not been used and matches, or else a new one. -/
def findOrCreate (s : TraceReducer R) (context : ReconcileItems) (candidates usedItemIds : List String)
    (item : NormalizedConversationItem) : String × TraceReducer R :=
  match s.findMatchingSnapshotItem candidates usedItemIds item with
  | some itemId => (itemId, s)
  | none => s.createItem context item

def chooseItem (s : TraceReducer R) (context : ReconcileItems) (previous itemIds : List String)
    (item : NormalizedConversationItem) : Except String (String × TraceReducer R) :=
  let index := context.startIndex + itemIds.length
  match previous[index]? with
  | some previousItemId =>
    if s.itemMatches previousItemId item then .ok (previousItemId, s)
    else match context.mode with
      | .fullSnapshot => .ok (s.findOrCreate context previous itemIds item)
      | .appendOnly => .error <|
        s!"model conversation mismatch while reducing turn {context.codexTurnId} for " ++
        s!"thread {context.threadId} at item index {index}: existing item " ++
        s!"{previousItemId} does not match the current model payload item"
  | none =>
    match context.mode with
    | .fullSnapshot => .ok (s.findOrCreate context previous itemIds item)
    | .appendOnly => .ok (s.createItem context item)

def reconcileLoop (linking : Linking R) (context : ReconcileItems) (previous : List String) :
    List NormalizedConversationItem → List String → TraceReducer R → Except String (List String × TraceReducer R)
  | [], itemIds, s => .ok (itemIds, s)
  | item :: items, itemIds, s => do
    s.ensureCallIdConsistency context.threadId item
    let (itemId, s) ← s.chooseItem context previous itemIds item
    let s ← s.sightItem linking itemId item context.producedBy
    reconcileLoop linking context previous items (itemIds ++ [itemId]) s

def reconcileConversationItems (linking : Linking R) (s : TraceReducer R) (items : List NormalizedConversationItem)
    (context : ReconcileItems) : Except String (List String × TraceReducer R) := do
  let previous := s.previousSnapshot context.threadId context.snapshotOverride
  let (itemIds, s) ← reconcileLoop linking context previous items [] s
  let effect ← linking.flushPendingCodeCellStarts s
  .ok (itemIds, s.withEffect effect)

/-- `DetachedReconcileItems` has the candidates in the place of a position and a mode. -/
structure DetachedReconcileItems where
  threadId : String
  codexTurnId : String
  wallTimeUnixMs : Int
  producedBy : List ProducerRef
  candidates : List String

def DetachedReconcileItems.toContext (context : DetachedReconcileItems) : ReconcileItems where
  threadId := context.threadId
  codexTurnId := context.codexTurnId
  wallTimeUnixMs := context.wallTimeUnixMs
  producedBy := context.producedBy
  startIndex := 0
  mode := .fullSnapshot
  snapshotOverride := none

def reconcileDetachedLoop (linking : Linking R) (context : DetachedReconcileItems) :
    List NormalizedConversationItem → List String → TraceReducer R → Except String (List String × TraceReducer R)
  | [], itemIds, s => .ok (itemIds, s)
  | item :: items, itemIds, s => do
    s.ensureCallIdConsistency context.threadId item
    let (itemId, s) := s.findOrCreate context.toContext context.candidates itemIds item
    let s ← s.sightItem linking itemId item context.producedBy
    reconcileDetachedLoop linking context items (itemIds ++ [itemId]) s

def reconcileDetachedConversationItems (linking : Linking R) (s : TraceReducer R)
    (items : List NormalizedConversationItem) (context : DetachedReconcileItems) :
    Except String (List String × TraceReducer R) := do
  let (itemIds, s) ← reconcileDetachedLoop linking context items [] s
  let effect ← linking.flushPendingCodeCellStarts s
  .ok (itemIds, s.withEffect effect)

def appendThreadConversationItems (s : TraceReducer R) (threadId : String) (itemIds : List String) :
    Except String (TraceReducer R) :=
  match s.threads.lookup threadId with
  | none => .error s!"trace event referenced unknown thread {threadId}"
  | some conversationItemIds =>
    let conversationItemIds :=
      itemIds.foldl (fun ids itemId => if itemId ∈ ids then ids else ids ++ [itemId]) conversationItemIds
    .ok { s with threads := SortedEntries.insert threadId conversationItemIds s.threads }

/-! ## Requests, responses and checkpoints -/

/-- A payload of the bundle, with what reading its file gives. -/
structure Payload where
  ref : RawPayloadRef
  json : Option Value

def readPayloadJson (payload : Payload) : Except String Value :=
  match payload.json with
  | some value => .ok value
  | none => .error s!"parse payload {payload.ref.rawPayloadId}"

def requestItems (serde : Serde) (payload : Payload) (json : Value) : Except String (List NormalizedConversationItem) := do
  let some input := json.get "input"
    | .error s!"inference request payload {payload.ref.rawPayloadId} did not contain input"
  let some requestItems := input.asArray
    | .error s!"inference request payload {payload.ref.rawPayloadId} had non-array input"
  normalizeModelItems serde requestItems payload.ref

/-- The request and response items of the first call of the thread with the response id. -/
def itemsOfResponse (s : TraceReducer R) (threadId previousResponseId : String) : Option (List String) :=
  (s.inferenceCalls.find? fun entry => entry.2.threadId = threadId && entry.2.responseId = some previousResponseId).map
    fun entry => entry.2.requestItemIds ++ entry.2.responseItemIds

def setSnapshot (s : TraceReducer R) (threadId : String) (itemIds : List String) : TraceReducer R :=
  { s with threadConversationSnapshots := SortedEntries.insert threadId itemIds s.threadConversationSnapshots }

/-- `inference_calls.get_mut` -/
def updateCall (s : TraceReducer R) (inferenceCallId : String) (change : InferenceCall → InferenceCall) : TraceReducer R :=
  { s with
    inferenceCalls := s.inferenceCalls.map fun entry =>
      if entry.1 = inferenceCallId then (entry.1, change entry.2) else entry }

def reduceInferenceRequest (serde : Serde) (linking : Linking R) (s : TraceReducer R) (wallTimeUnixMs : Int)
    (inferenceCallId threadId codexTurnId : String) (requestPayload : Payload) :
    Except String (List String × TraceReducer R) := do
  let payload ← readPayloadJson requestPayload
  let items ← requestItems serde requestPayload payload
  match payload.str "previous_response_id" with
  | some previousResponseId =>
    let some itemIds := s.itemsOfResponse threadId previousResponseId
      | .error <| s!"incremental inference request {inferenceCallId} referenced unknown previous_response_id " ++
          s!"{previousResponseId}"
    let (deltaItemIds, s) ← reconcileConversationItems linking s items {
      threadId
      codexTurnId
      wallTimeUnixMs
      producedBy := []
      startIndex := itemIds.length
      mode := .appendOnly
      snapshotOverride := none }
    let itemIds := itemIds ++ deltaItemIds
    let s ← s.appendThreadConversationItems threadId itemIds
    .ok (itemIds, s.setSnapshot threadId itemIds)
  | none =>
    let postCompactionSnapshot := s.pendingCompactionReplacementItemIds.lookup threadId
    let (itemIds, s) ← reconcileConversationItems linking s items {
      threadId
      codexTurnId
      wallTimeUnixMs
      producedBy := []
      startIndex := 0
      mode := .fullSnapshot
      snapshotOverride := postCompactionSnapshot }
    let s ← s.appendThreadConversationItems threadId itemIds
    let s := { s with
      pendingCompactionReplacementItemIds :=
        s.pendingCompactionReplacementItemIds.filter fun entry => entry.1 ≠ threadId }
    .ok (itemIds, s.setSnapshot threadId itemIds)

def reduceInferenceResponse (serde : Serde) (linking : Linking R) (s : TraceReducer R) (wallTimeUnixMs : Int)
    (inferenceCallId : String) (responsePayload : Payload) : Except String (List String × TraceReducer R) := do
  let payload ← readPayloadJson responsePayload
  let some outputItems := (payload.get "output_items").bind Value.asArray
    | .error s!"inference response payload {responsePayload.ref.rawPayloadId} did not contain output_items"
  let some inference := s.inferenceCalls.lookup inferenceCallId
    | .error s!"inference response referenced unknown call {inferenceCallId}"
  let items ← normalizeModelItems serde outputItems responsePayload.ref
  let (responseItemIds, s) ← reconcileConversationItems linking s items {
    threadId := inference.threadId
    codexTurnId := inference.codexTurnId
    wallTimeUnixMs
    producedBy := [.inference inferenceCallId]
    startIndex := ((s.threadConversationSnapshots.lookup inference.threadId).getD []).length
    mode := .appendOnly
    snapshotOverride := none }
  let s ← s.appendThreadConversationItems inference.threadId responseItemIds
  let s := s.setSnapshot inference.threadId
    ((s.threadConversationSnapshots.lookup inference.threadId).getD [] ++ responseItemIds)
  .ok (responseItemIds, match (payload.get "token_usage").bind (tokenUsageFromValue serde) with
    | none => s
    | some usage => s.updateCall inferenceCallId fun inference => { inference with usage := some usage })

structure ReducedCompactionCheckpoint where
  inputItemIds : List String
  markerItemId : String
  replacementItemIds : List String

def requiredArray (payload : Value) (key : String) (rawPayload : RawPayloadRef) : Except String (List Value) :=
  match (payload.get key).bind Value.asArray with
  | some items => .ok items
  | none => .error s!"compaction checkpoint payload {rawPayload.rawPayloadId} did not contain array {key}"

def compactionMarker : NormalizedConversationItem where
  role := .assistant
  channel := none
  kind := .compactionMarker
  agentMessage := none
  body := { parts := [] }
  callId := none

def reduceCompactionCheckpoint (serde : Serde) (linking : Linking R) (s : TraceReducer R) (wallTimeUnixMs : Int)
    (threadId codexTurnId compactionId : String) (checkpointPayload : Payload) :
    Except String (ReducedCompactionCheckpoint × TraceReducer R) := do
  let payload ← readPayloadJson checkpointPayload
  let inputHistory ← requiredArray payload "input_history" checkpointPayload.ref
  let replacementHistory ← requiredArray payload "replacement_history" checkpointPayload.ref
  let inputItems ← normalizeModelItems serde inputHistory checkpointPayload.ref
  let replacementItems ← normalizeModelItems serde replacementHistory checkpointPayload.ref
  let (inputItemIds, s) ← reconcileDetachedConversationItems linking s inputItems {
    threadId
    codexTurnId
    wallTimeUnixMs
    producedBy := []
    candidates := (s.threadConversationSnapshots.lookup threadId).getD [] }
  let (markerItemId, s) := s.createConversationItem threadId (some codexTurnId) wallTimeUnixMs compactionMarker
    [.compaction compactionId]
  let (replacementItemIds, s) ← reconcileDetachedConversationItems linking s replacementItems {
    threadId
    codexTurnId
    wallTimeUnixMs
    producedBy := [.compaction compactionId]
    candidates := [] }
  let s ← s.appendThreadConversationItems threadId inputItemIds
  let s ← s.appendThreadConversationItems threadId [markerItemId]
  let s ← s.appendThreadConversationItems threadId replacementItemIds
  .ok ({ inputItemIds, markerItemId, replacementItemIds }, s)

/-- The turn is known and of the thread. -/
def checkTurn (s : TraceReducer R) (what threadId codexTurnId : String) : Except String Unit :=
  match s.codexTurns.lookup codexTurnId with
  | none => .error s!"{what} referenced unknown codex turn {codexTurnId}"
  | some turnThreadId =>
    if turnThreadId ≠ threadId then
      .error s!"{what} used thread {threadId}, but codex turn {codexTurnId} belongs to {turnThreadId}"
    else .ok ()

def startInferenceCall (serde : Serde) (linking : Linking R) (s : TraceReducer R) (wallTimeUnixMs : Int)
    (inferenceCallId threadId codexTurnId : String) (requestPayload : Payload) : Except String (TraceReducer R) := do
  if (s.inferenceCalls.lookup inferenceCallId).isSome then
    .error s!"duplicate inference start for {inferenceCallId}"
  s.checkTurn s!"inference start {inferenceCallId}" threadId codexTurnId
  let (requestItemIds, s) ←
    reduceInferenceRequest serde linking s wallTimeUnixMs inferenceCallId threadId codexTurnId requestPayload
  if (s.threads.lookup threadId).isNone then
    .error s!"trace event referenced unknown thread {threadId}"
  .ok { s with
    inferenceCalls := SortedEntries.insert inferenceCallId {
      inferenceCallId
      threadId
      codexTurnId
      responseId := none
      requestItemIds
      responseItemIds := []
      usage := none } s.inferenceCalls }

def completeInferenceCall (serde : Serde) (linking : Linking R) (s : TraceReducer R) (wallTimeUnixMs : Int)
    (inferenceCallId : String) (responseId : Option String) (responsePayload : Option Payload) :
    Except String (TraceReducer R) := do
  if (s.inferenceCalls.lookup inferenceCallId).isNone then
    .error s!"inference completion referenced unknown call {inferenceCallId}"
  let (responseItemIds, s) ← match responsePayload with
    | none => .ok (none, s)
    | some payload => do
      let (ids, s) ← reduceInferenceResponse serde linking s wallTimeUnixMs inferenceCallId payload
      .ok (some ids, s)
  .ok (s.updateCall inferenceCallId fun inference =>
    { inference with responseId, responseItemIds := responseItemIds.getD inference.responseItemIds })

def reduceCompactionInstalledEvent (serde : Serde) (linking : Linking R) (s : TraceReducer R) (wallTimeUnixMs : Int)
    (threadId codexTurnId compactionId : String) (checkpointPayload : Payload) : Except String (TraceReducer R) := do
  if (s.compactions.lookup compactionId).isSome then
    .error s!"duplicate compaction install for {compactionId}"
  if (s.threads.lookup threadId).isNone then
    .error s!"trace event referenced unknown thread {threadId}"
  s.checkTurn s!"compaction install {compactionId}" threadId codexTurnId
  let (checkpoint, s) ←
    reduceCompactionCheckpoint serde linking s wallTimeUnixMs threadId codexTurnId compactionId checkpointPayload
  .ok { s with
    pendingCompactionReplacementItemIds :=
      SortedEntries.insert threadId checkpoint.replacementItemIds s.pendingCompactionReplacementItemIds
    compactions := SortedEntries.insert compactionId {
      compactionId
      threadId
      codexTurnId
      installedAtUnixMs := wallTimeUnixMs
      markerItemId := checkpoint.markerItemId
      inputItemIds := checkpoint.inputItemIds
      replacementItemIds := checkpoint.replacementItemIds } s.compactions }

def startThread (s : TraceReducer R) (threadId : String) : Except String (TraceReducer R) :=
  if (s.threads.lookup threadId).isSome then .error s!"duplicate thread start for {threadId}"
  else .ok { s with threads := SortedEntries.insert threadId [] s.threads }

def startCodexTurn (s : TraceReducer R) (codexTurnId threadId : String) : Except String (TraceReducer R) :=
  if (s.codexTurns.lookup codexTurnId).isSome then .error s!"duplicate codex turn start for {codexTurnId}"
  else if (s.threads.lookup threadId).isNone then .error s!"trace event referenced unknown thread {threadId}"
  else .ok { s with codexTurns := SortedEntries.insert codexTurnId threadId s.codexTurns }

end TraceReducer

/-! ## Events -/

/-- The events of a trace. A call ends completed, with the response's id, or failed or cancelled, without it. -/
inductive TraceEvent (R : Type) where
  | threadStarted (threadId : String)
  | codexTurnStarted (codexTurnId threadId : String)
  | inferenceStarted (wallTimeUnixMs : Int) (inferenceCallId threadId codexTurnId : String)
      (requestPayload : TraceReducer.Payload)
  | inferenceEnded (wallTimeUnixMs : Int) (inferenceCallId : String) (responseId : Option String)
      (responsePayload : Option TraceReducer.Payload)
  | compactionInstalled (wallTimeUnixMs : Int) (threadId codexTurnId compactionId : String)
      (checkpointPayload : TraceReducer.Payload)
  | other (effect : TraceReducer R → Except String (Effect R))

variable {R : Type} (serde : Serde) (linking : Linking R)

def applyEvent (s : TraceReducer R) : TraceEvent R → Except String (TraceReducer R)
  | .threadStarted threadId => s.startThread threadId
  | .codexTurnStarted codexTurnId threadId => s.startCodexTurn codexTurnId threadId
  | .inferenceStarted wallTimeUnixMs inferenceCallId threadId codexTurnId requestPayload =>
    s.startInferenceCall serde linking wallTimeUnixMs inferenceCallId threadId codexTurnId requestPayload
  | .inferenceEnded wallTimeUnixMs inferenceCallId responseId responsePayload =>
    s.completeInferenceCall serde linking wallTimeUnixMs inferenceCallId responseId responsePayload
  | .compactionInstalled wallTimeUnixMs threadId codexTurnId compactionId checkpointPayload =>
    s.reduceCompactionInstalledEvent serde linking wallTimeUnixMs threadId codexTurnId compactionId checkpointPayload
  | .other effect => do
    let effect ← effect s
    .ok (s.withEffect effect)

/-- The loop of `replay_bundle`, which stops at the first error. -/
def replay (s : TraceReducer R) (events : List (TraceEvent R)) : Except String (TraceReducer R) :=
  events.foldlM (applyEvent serde linking) s

end Codex.Trace
