/-
Calls and their outputs in the history: `normalize_history` and `remove_first_item`.
Before a prompt is made of it, every call gets an output behind it and every output of
the client without a call is dropped; when the oldest item is dropped, so is the other
half of its pair.

`error_or_panic` logs, as in a release build. The UUIDs are a parameter.

Source: core/src/context_manager/normalize.rs, core/src/context_manager/history.rs.
-/
import Codex.Protocol

namespace Codex.Normalize

/-- `FunctionCallOutputContentItem` -/
inductive OutputContentItem where
  | inputText (text : Text)
  | inputImage (imageUrl : String) (detail : Option String)
  | inputAudio (audioUrl : String)
  | encryptedContent (encryptedContent : String)
  deriving DecidableEq

/-- `FunctionCallOutputBody` -/
inductive OutputBody where
  | text (content : Text)
  | contentItems (items : List OutputContentItem)
  deriving DecidableEq

/-- `FunctionCallOutputPayload` -/
structure OutputPayload where
  body : OutputBody
  success : Option Bool
  deriving DecidableEq

def OutputPayload.fromText (content : Text) : OutputPayload := { body := .text content, success := none }

/-- `ResponseItem`, with what normalization reads; `fields` are the other fields. -/
inductive Item where
  | additionalTools (fields : RawJson)
  | message (content : List ContentItem) (fields : RawJson)
  | agentMessage (fields : RawJson)
  | reasoning (fields : RawJson)
  | localShellCall (id callId : Option String) (fields : RawJson)
  | functionCall (id : Option String) (callId : String) (fields : RawJson)
  | toolSearchCall (id callId : Option String) (execution : String) (fields : RawJson)
  | functionCallOutput (id : Option String) (callId : String) (output : OutputPayload) (metadata : Option MessageMetadata)
  | customToolCall (id : Option String) (callId : String) (fields : RawJson)
  | customToolCallOutput (id : Option String) (callId : String) (name : Option String) (output : OutputPayload)
      (metadata : Option MessageMetadata)
  | toolSearchOutput (id callId : Option String) (status execution : String) (tools : List RawJson)
      (metadata : Option MessageMetadata)
  | webSearchCall (fields : RawJson)
  | imageGenerationCall (result : String) (fields : RawJson)
  | compaction (fields : RawJson)
  | compactionTrigger
  | contextCompaction (fields : RawJson)
  | other
  deriving DecidableEq

inductive InputModality where
  | text
  | image
  | audio
  deriving DecidableEq

def imageContentOmittedPlaceholder : Text := "image content omitted because you do not support image input".toList
def audioContentOmittedPlaceholder : Text := "audio content omitted because you do not support audio input".toList

/-! ## Missing outputs -/

def functionOutputIds (items : List Item) : List String := items.filterMap fun
  | .functionCallOutput _ callId _ _ => some callId
  | _ => none

def toolSearchOutputIds (items : List Item) : List String := items.filterMap fun
  | .toolSearchOutput _ (some callId) _ _ _ _ => some callId
  | _ => none

def customToolOutputIds (items : List Item) : List String := items.filterMap fun
  | .customToolCallOutput _ callId _ _ _ => some callId
  | _ => none

/-- `synthetic_output_id`; `uuidV5` is the UUID of a name in the namespace of synthetic outputs. -/
def syntheticOutputId (uuidV5 : String → String) (kind : String) (itemId : Option String) : Option String :=
  (itemId.filter fun id => id != "").map fun sourceId => kind ++ "_" ++ uuidV5 (kind ++ ":" ++ sourceId)

def abortedFunctionOutput (uuidV5 : String → String) (id : Option String) (callId : String) : Item :=
  .functionCallOutput (syntheticOutputId uuidV5 "fco" id) callId (.fromText "aborted".toList) none

/-- The output that the loop of `ensure_call_outputs_present` makes for a call without one. -/
def missingOutput (uuidV5 : String → String) (items : List Item) : Item → Option Item
  | .functionCall id callId _ =>
    if callId ∈ functionOutputIds items then none else some (abortedFunctionOutput uuidV5 id callId)
  | .toolSearchCall id (some callId) _ _ =>
    if callId ∈ toolSearchOutputIds items then none
    else some (.toolSearchOutput (syntheticOutputId uuidV5 "tso" id) (some callId) "completed" "client" [] none)
  | .customToolCall id callId _ =>
    if callId ∈ customToolOutputIds items then none
    else some (.customToolCallOutput (syntheticOutputId uuidV5 "ctco" id) callId none (.fromText "aborted".toList) none)
  | .localShellCall id (some callId) _ =>
    if callId ∈ functionOutputIds items then none else some (abortedFunctionOutput uuidV5 id callId)
  | _ => none

/-- The missing outputs, each with the index of its call before it. -/
def missingOutputsToInsert (uuidV5 : String → String) (items : List Item) : List (Nat × Item) :=
  items.zipIdx.filterMap fun call => (missingOutput uuidV5 items call.1).map fun output => (call.2, output)

/-- The outputs go behind their calls, the last first. -/
def ensureCallOutputsPresent (uuidV5 : String → String) (items : List Item) : List Item :=
  (missingOutputsToInsert uuidV5 items).reverse.foldl (fun items missing => items.insertIdx (missing.1 + 1) missing.2) items

/-! ## Outputs without a call -/

def functionCallIds (items : List Item) : List String := items.filterMap fun
  | .functionCall _ callId _ => some callId
  | _ => none

def toolSearchCallIds (items : List Item) : List String := items.filterMap fun
  | .toolSearchCall _ (some callId) _ _ => some callId
  | _ => none

def localShellCallIds (items : List Item) : List String := items.filterMap fun
  | .localShellCall _ (some callId) _ => some callId
  | _ => none

def customToolCallIds (items : List Item) : List String := items.filterMap fun
  | .customToolCall _ callId _ => some callId
  | _ => none

/-- What `remove_orphan_outputs` retains. -/
def retained (items : List Item) : Item → Bool
  | .functionCallOutput _ callId _ _ => decide (callId ∈ functionCallIds items) || decide (callId ∈ localShellCallIds items)
  | .customToolCallOutput _ callId _ _ _ => decide (callId ∈ customToolCallIds items)
  | .toolSearchOutput _ callId _ execution _ _ =>
    if execution == "server" then true
    else match callId with
      | some callId => decide (callId ∈ toolSearchCallIds items)
      | none => true
  | _ => true

def removeOrphanOutputs (items : List Item) : List Item := items.filter (retained items)

/-! ## Images and audio -/

def OutputPayload.mapContentItems (f : OutputContentItem → OutputContentItem) (output : OutputPayload) : OutputPayload :=
  match output.body with
  | .text _ => output
  | .contentItems items => { output with body := .contentItems (items.map f) }

/-- The shape of both strips: the content of messages and tool outputs, item by item. -/
def mapContent (f : ContentItem → ContentItem) (g : OutputContentItem → OutputContentItem) : Item → Item
  | .message content fields => .message (content.map f) fields
  | .functionCallOutput id callId output metadata => .functionCallOutput id callId (output.mapContentItems g) metadata
  | .customToolCallOutput id callId name output metadata =>
    .customToolCallOutput id callId name (output.mapContentItems g) metadata
  | item => item

def omitImage : ContentItem → ContentItem
  | .inputImage _ _ => .inputText imageContentOmittedPlaceholder
  | item => item

def omitOutputImage : OutputContentItem → OutputContentItem
  | .inputImage _ _ => .inputText imageContentOmittedPlaceholder
  | item => item

def omitAudio : ContentItem → ContentItem
  | .inputAudio _ => .inputText audioContentOmittedPlaceholder
  | item => item

def omitOutputAudio : OutputContentItem → OutputContentItem
  | .inputAudio _ => .inputText audioContentOmittedPlaceholder
  | item => item

/-- The round of the loop of `strip_images_when_unsupported`. -/
def stripImages : Item → Item
  | .imageGenerationCall _ fields => .imageGenerationCall "" fields
  | item => mapContent omitImage omitOutputImage item

def stripImagesWhenUnsupported (inputModalities : List InputModality) (items : List Item) : List Item :=
  if InputModality.image ∈ inputModalities then items else items.map stripImages

def stripAudioWhenUnsupported (inputModalities : List InputModality) (items : List Item) : List Item :=
  if InputModality.audio ∈ inputModalities then items else items.map (mapContent omitAudio omitOutputAudio)

/-- `ContextManager::normalize_history`, on the items. -/
def normalizeHistory (uuidV5 : String → String) (inputModalities : List InputModality) (items : List Item) : List Item :=
  stripAudioWhenUnsupported inputModalities (stripImagesWhenUnsupported inputModalities
    (removeOrphanOutputs (ensureCallOutputsPresent uuidV5 items)))

/-! ## The oldest item -/

def isFunctionOutputOf (callId : String) : Item → Bool
  | .functionCallOutput _ existing _ _ => existing == callId
  | _ => false

def isFunctionCallOf (callId : String) : Item → Bool
  | .functionCall _ existing _ => existing == callId
  | _ => false

def isLocalShellCallOf (callId : String) : Item → Bool
  | .localShellCall _ (some existing) _ => existing == callId
  | _ => false

def isToolSearchOutputOf (callId : String) : Item → Bool
  | .toolSearchOutput _ (some existing) _ _ _ _ => existing == callId
  | _ => false

def isToolSearchCallOf (callId : String) : Item → Bool
  | .toolSearchCall _ (some existing) _ _ => existing == callId
  | _ => false

def isCustomToolOutputOf (callId : String) : Item → Bool
  | .customToolCallOutput _ existing _ _ _ => existing == callId
  | _ => false

def isCustomToolCallOf (callId : String) : Item → Bool
  | .customToolCall _ existing _ => existing == callId
  | _ => false

def removeFirstMatching (items : List Item) (predicate : Item → Bool) : List Item := items.eraseP predicate

def removeCorrespondingFor (items : List Item) : Item → List Item
  | .functionCall _ callId _ => removeFirstMatching items (isFunctionOutputOf callId)
  | .functionCallOutput _ callId _ _ =>
    if items.any (isFunctionCallOf callId) then removeFirstMatching items (isFunctionCallOf callId)
    else removeFirstMatching items (isLocalShellCallOf callId)
  | .toolSearchCall _ (some callId) _ _ => removeFirstMatching items (isToolSearchOutputOf callId)
  | .toolSearchOutput _ (some callId) _ _ _ _ => removeFirstMatching items (isToolSearchCallOf callId)
  | .customToolCall _ callId _ => removeFirstMatching items (isCustomToolOutputOf callId)
  | .customToolCallOutput _ callId _ _ _ => removeFirstMatching items (isCustomToolCallOf callId)
  | .localShellCall _ (some callId) _ => removeFirstMatching items (isFunctionOutputOf callId)
  | _ => items

/-- The items of a `ContextManager`, and the baseline that dropping one clears. -/
structure History where
  items : List Item
  worldStateBaseline : Option RawJson

def History.removeFirstItem (history : History) : History :=
  match history.items with
  | [] => history
  | removed :: items => { items := removeCorrespondingFor items removed, worldStateBaseline := none }

end Codex.Normalize
