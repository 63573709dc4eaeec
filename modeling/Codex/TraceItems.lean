/-
The conversation items of the reduced rollout trace: how a Responses item of a
payload is normalized, when an item on record is the same as a normalized one, and
how a later sighting of a reasoning item is merged into it. Two sightings are the
same exactly when they have one identity (`conversationItemMatches_iff`), and
merging never changes an item's identity.

Source: rollout-trace/src/reducer/conversation.rs, conversation/normalize.rs,
model/conversation.rs.
-/
import Codex.Reconstruct
import Codex.Lib.Results
import Mathlib.Data.String.Basic

namespace Codex

def Value.get (value : Value) (key : String) : Option Value :=
  match value with
  | .object entries => entries.lookup key
  | _ => none

def Value.asStr : Value → Option String
  | .string s => some s
  | _ => none

def Value.asArray : Value → Option (List Value)
  | .array items => some items
  | _ => none

def Value.str (value : Value) (key : String) : Option String := (value.get key).bind Value.asStr

namespace Trace

inductive ConversationRole where
  | system
  | developer
  | user
  | assistant
  | tool
  deriving DecidableEq

inductive ConversationChannel where
  | analysis
  | commentary
  | final
  | summary
  deriving DecidableEq

inductive ConversationItemKind where
  | message
  | reasoning
  | functionCall
  | functionCallOutput
  | customToolCall
  | customToolCallOutput
  | compactionMarker
  deriving DecidableEq

structure AgentMessageMetadata where
  author : String
  recipient : String
  deriving DecidableEq

inductive ConversationPart where
  | text (text : String)
  | summary (text : String)
  | encoded (label value : String)
  | json (summary rawPayloadId : String)
  | code (language source : String)
  | payloadRef (label rawPayloadId : String)
  deriving DecidableEq

structure ConversationBody where
  parts : List ConversationPart
  deriving DecidableEq

inductive ProducerRef where
  | userInput
  | inference (inferenceCallId : String)
  | tool (toolCallId : String)
  | codeCell (codeCellId : String)
  | interactionEdge (edgeId : String)
  | compaction (compactionId : String)
  | harness
  deriving DecidableEq

structure NormalizedConversationItem where
  role : ConversationRole
  channel : Option ConversationChannel
  kind : ConversationItemKind
  agentMessage : Option AgentMessageMetadata
  body : ConversationBody
  callId : Option String
  deriving DecidableEq

structure ConversationItem where
  itemId : String
  threadId : String
  codexTurnId : Option String
  firstSeenAtUnixMs : Int
  role : ConversationRole
  channel : Option ConversationChannel
  kind : ConversationItemKind
  agentMessage : Option AgentMessageMetadata
  body : ConversationBody
  callId : Option String
  producedBy : List ProducerRef
  deriving DecidableEq

structure TokenUsage where
  inputTokens : Nat
  cachedInputTokens : Nat
  cacheWriteInputTokens : Nat
  outputTokens : Nat
  reasoningOutputTokens : Nat
  deriving DecidableEq

/-! ## Normalization -/

structure RawPayloadRef where
  rawPayloadId : String
  deriving DecidableEq

inductive AgentMessageInputContent where
  | inputText (text : String)
  | encryptedContent (encryptedContent : String)

structure AgentMessage where
  author : String
  recipient : String
  content : List AgentMessageInputContent

/-- What serde does: writing JSON, reading it, the numbers that are an `i64`, and reading a `ResponseItem`, of which only
an agent message is looked into. -/
structure Serde where
  toString : Value → Option String
  fromStr : String → Option Value
  asI64 : String → Option Int
  responseItem : Value → Except String (Option AgentMessage)

def u64Field (serde : Serde) (value : Value) (field : String) : Option Nat :=
  match value.get field with
  | some (.number text) => (serde.asI64 text).map fun n => (max n 0).toNat
  | _ => none

def tokenUsageFromValue (serde : Serde) (value : Value) : Option TokenUsage := do
  let inputTokens ← u64Field serde value "input_tokens"
  let cachedInputTokens ← u64Field serde value "cached_input_tokens"
  let outputTokens ← u64Field serde value "output_tokens"
  let reasoningOutputTokens ← u64Field serde value "reasoning_output_tokens"
  some {
    inputTokens
    cachedInputTokens
    cacheWriteInputTokens := (u64Field serde value "cache_write_input_tokens").getD 0
    outputTokens
    reasoningOutputTokens }

def roleFromStr : String → Option ConversationRole
  | "system" => some .system
  | "developer" => some .developer
  | "user" => some .user
  | "assistant" => some .assistant
  | "tool" => some .tool
  | _ => none

def channelFromPhase : String → Option ConversationChannel
  | "commentary" => some .commentary
  | "final_answer" => some .final
  | "summary" => some .summary
  | _ => none

/-- `String::truncate`, which panics inside a character. -/
def truncate : Nat → List Char → Except String (List Char)
  | 0, _ => .ok []
  | _, [] => .ok []
  | n + 1, c :: cs =>
    if c.utf8Size ≤ n + 1 then (truncate (n + 1 - c.utf8Size) cs).map (c :: ·)
    else .error "assertion failed: self.is_char_boundary(new_len)"

def maxJsonSummaryLen : Nat := 240

def summarizeJson (serde : Serde) (value : Value) : Except String String := do
  let summary := (serde.toString value).getD "<unserializable json>"
  if summary.utf8ByteSize > maxJsonSummaryLen then
    let kept ← truncate maxJsonSummaryLen summary.toList
    .ok (String.ofList kept ++ "...")
  else .ok summary

def payloadRefPart (label : String) (rawPayload : RawPayloadRef) : ConversationPart := .payloadRef label rawPayload.rawPayloadId

def jsonBody (serde : Serde) (value : Value) (rawPayload : RawPayloadRef) : Except String ConversationBody := do
  let summary ← summarizeJson serde value
  .ok { parts := [.json summary rawPayload.rawPayloadId] }

/-- The part of one entry of a message's content; a text entry without its text has none. -/
def contentPart (part : Value) (rawPayload : RawPayloadRef) : Option ConversationPart :=
  match part.str "type" with
  | some type =>
    if type = "input_text" ∨ type = "output_text" ∨ type = "text" then (part.str "text").map .text
    else some (payloadRefPart type rawPayload)
  | none => some (payloadRefPart "content" rawPayload)

def contentParts (content : Option Value) (rawPayload : RawPayloadRef) : List ConversationPart :=
  match content.bind Value.asArray with
  | none => [payloadRefPart "content" rawPayload]
  | some content =>
    let parts := content.filterMap fun part => contentPart part rawPayload
    if parts.isEmpty then [payloadRefPart "empty_content" rawPayload] else parts

def customToolCallBody (serde : Serde) (item : Value) (rawPayload : RawPayloadRef) : Except String ConversationBody :=
  match item.str "input" with
  | none => jsonBody serde item rawPayload
  | some input =>
    if item.str "name" = some "exec" then .ok { parts := [.code "javascript" input] }
    else .ok { parts := [.text input] }

def rawTextOrJsonBody (serde : Serde) (value : Option Value) (rawPayload : RawPayloadRef) : Except String ConversationBody :=
  match value with
  | some (.string text) =>
    match serde.fromStr text with
    | some json => jsonBody serde json rawPayload
    | none => .ok { parts := [.text text] }
  | some value => jsonBody serde value rawPayload
  | none => .ok { parts := [payloadRefPart "payload" rawPayload] }

def toolOutputBody (serde : Serde) (output : Option Value) (rawPayload : RawPayloadRef) : Except String ConversationBody :=
  match output with
  | some (.string text) => .ok { parts := [.text text] }
  | some (.array _) => .ok { parts := contentParts output rawPayload }
  | some value => jsonBody serde value rawPayload
  | none => .ok { parts := [payloadRefPart "tool_output" rawPayload] }

def compactionBody (item : Value) (rawPayload : RawPayloadRef) : Except String ConversationBody :=
  match item.str "encrypted_content" with
  | none => .error s!"compaction item in payload {rawPayload.rawPayloadId} did not contain string encrypted_content"
  | some encryptedContent => .ok { parts := [.encoded "encrypted_content" encryptedContent] }

inductive ReasoningPartKind where
  | content
  | summary
  deriving DecidableEq

def appendReasoningPart (key : String) (kind : ReasoningPartKind) (rawPayload : RawPayloadRef) (contentItem : Value) :
    Except String ConversationPart := do
  let rawPayloadId := rawPayload.rawPayloadId
  let some itemType := contentItem.str "type"
    | .error s!"reasoning item in payload {rawPayloadId} had {key} entry without string type"
  let expectedType ← match kind with
    | .content =>
      if itemType = "reasoning_text" ∨ itemType = "text" then .ok "content"
      else .error s!"reasoning item in payload {rawPayloadId} had unsupported content type {itemType}"
    | .summary =>
      if itemType = "summary_text" then .ok "summary"
      else .error s!"reasoning item in payload {rawPayloadId} had unsupported summary type {itemType}"
  let some text := contentItem.str "text"
    | .error s!"reasoning item in payload {rawPayloadId} had {expectedType} entry without string text"
  match kind with
  | .content => .ok (.text text)
  | .summary => .ok (.summary text)

def appendReasoningParts (item : Value) (key : String) (kind : ReasoningPartKind) (rawPayload : RawPayloadRef)
    (parts : List ConversationPart) : Except String (List ConversationPart) :=
  match item.get key with
  | none => .ok parts
  | some items =>
    if kind = .content ∧ items.isNull then .ok parts
    else match items.asArray with
      | none => .error s!"reasoning item in payload {rawPayload.rawPayloadId} had non-array {key}"
      | some items => (items.mapM (appendReasoningPart key kind rawPayload)).map (parts ++ ·)

def normalizeMessageItem (item : Value) (rawPayload : RawPayloadRef) : Except String NormalizedConversationItem := do
  let some role := item.str "role"
    | .error s!"message item in payload {rawPayload.rawPayloadId} did not contain a string role"
  let some role := roleFromStr role
    | .error s!"unsupported message role {role} in payload {rawPayload.rawPayloadId}"
  .ok {
    role
    channel := (item.str "phase").bind channelFromPhase
    kind := .message
    agentMessage := none
    body := { parts := contentParts (item.get "content") rawPayload }
    callId := none }

def normalizeAgentMessageItem (serde : Serde) (item : Value) (rawPayload : RawPayloadRef) :
    Except String NormalizedConversationItem := do
  let rawPayloadId := rawPayload.rawPayloadId
  let responseItem ← (serde.responseItem item).mapError fun _ =>
    s!"failed to parse agent_message item in payload {rawPayloadId}"
  let some message := responseItem
    | .error s!"item in payload {rawPayloadId} was not an agent_message"
  let parts := message.content.map fun
    | .inputText text => ConversationPart.text text
    | .encryptedContent encryptedContent => .encoded "encrypted_content" encryptedContent
  if parts.isEmpty then .error s!"agent_message item in payload {rawPayloadId} contained no content"
  else .ok {
    role := .assistant
    channel := some .analysis
    kind := .message
    agentMessage := some { author := message.author, recipient := message.recipient }
    body := { parts }
    callId := none }

def normalizeReasoningItem (item : Value) (rawPayload : RawPayloadRef) : Except String NormalizedConversationItem := do
  let parts ← appendReasoningParts item "content" .content rawPayload []
  let parts ← appendReasoningParts item "summary" .summary rawPayload parts
  let parts ← match item.get "encrypted_content" with
    | none | some .null => .ok parts
    | some (.string encryptedContent) => .ok (parts ++ [.encoded "encrypted_content" encryptedContent])
    | some _ => .error s!"reasoning item in payload {rawPayload.rawPayloadId} had non-string encrypted_content"
  if parts.isEmpty then
    .error s!"reasoning item in payload {rawPayload.rawPayloadId} contained no content, summary, or encrypted_content"
  else .ok {
    role := .assistant
    channel := some .analysis
    kind := .reasoning
    agentMessage := none
    body := { parts }
    callId := none }

/-- A tool's call or its output; both go by their `call_id`. -/
def normalizeToolItem (role : ConversationRole) (kind : ConversationItemKind) (item : Value)
    (body : Except String ConversationBody) : Except String NormalizedConversationItem := do
  let body ← body
  .ok { role, channel := some .commentary, kind, agentMessage := none, body, callId := item.str "call_id" }

def normalizeModelItem (serde : Serde) (item : Value) (rawPayload : RawPayloadRef) :
    Except String NormalizedConversationItem :=
  match item.str "type" with
  | none => .error s!"model item in payload {rawPayload.rawPayloadId} did not contain a string type"
  | some "message" => normalizeMessageItem item rawPayload
  | some "agent_message" => normalizeAgentMessageItem serde item rawPayload
  | some "reasoning" => normalizeReasoningItem item rawPayload
  | some "function_call" =>
    normalizeToolItem .assistant .functionCall item (rawTextOrJsonBody serde (item.get "arguments") rawPayload)
  | some "function_call_output" =>
    normalizeToolItem .tool .functionCallOutput item (toolOutputBody serde (item.get "output") rawPayload)
  | some "custom_tool_call" => normalizeToolItem .assistant .customToolCall item (customToolCallBody serde item rawPayload)
  | some "custom_tool_call_output" =>
    normalizeToolItem .tool .customToolCallOutput item (toolOutputBody serde (item.get "output") rawPayload)
  | some "tool_search_call" | some "web_search_call" | some "image_generation_call" | some "local_shell_call" =>
    normalizeToolItem .assistant .functionCall item (jsonBody serde item rawPayload)
  | some "tool_search_output" | some "mcp_tool_call_output" =>
    normalizeToolItem .tool .functionCallOutput item (jsonBody serde item rawPayload)
  | some "compaction" | some "compaction_summary" | some "context_compaction" => do
    let body ← compactionBody item rawPayload
    .ok { role := .assistant, channel := some .summary, kind := .message, agentMessage := none, body, callId := none }
  | some itemType => .error s!"unsupported model item type {itemType} in payload {rawPayload.rawPayloadId}"

/-- The model items of a payload; an entry of additional tools is none. -/
def normalizeModelItems (serde : Serde) (items : List Value) (rawPayload : RawPayloadRef) :
    Except String (List NormalizedConversationItem) :=
  (items.filter fun item => item.str "type" ≠ some "additional_tools").mapM fun item =>
    normalizeModelItem serde item rawPayload

/-! ## Two sightings of one item -/

def partMatches (left right : ConversationPart) : Bool :=
  match left, right with
  | .json leftSummary _, .json rightSummary _ => leftSummary = rightSummary
  | _, _ => left = right

def conversationBodyMatches (left right : ConversationBody) : Bool :=
  left.parts.length = right.parts.length && (left.parts.zip right.parts).all fun pair => partMatches pair.1 pair.2

def encodedPart : ConversationPart → Option (String × String)
  | .encoded label value => some (label, value)
  | _ => none

def reasoningEncodedPart (body : ConversationBody) : Option (String × String) := body.parts.findSome? encodedPart

def reasoningBodyMatches (left right : ConversationBody) : Bool :=
  if conversationBodyMatches left right then true
  else match reasoningEncodedPart left, reasoningEncodedPart right with
    | some leftEncoded, some rightEncoded => leftEncoded = rightEncoded
    | _, _ => false

def isText : ConversationPart → Bool
  | .text _ => true
  | _ => false

def isSummary : ConversationPart → Bool
  | .summary _ => true
  | _ => false

def reasoningTextParts (body : ConversationBody) : List ConversationPart := body.parts.filter isText

def reasoningSummaryParts (body : ConversationBody) : List ConversationPart := body.parts.filter isSummary

def reasoningEncodedParts (body : ConversationBody) : List ConversationPart :=
  body.parts.filter fun part => (encodedPart part).isSome

def mergeReasoningBody (existing incoming : ConversationBody) : Except String ConversationBody :=
  if conversationBodyMatches existing incoming then .ok existing
  else if ¬ reasoningBodyMatches existing incoming then
    .error "reasoning item merge attempted with different encrypted_content identity"
  else
    let existingTextParts := reasoningTextParts existing
    let existingSummaryParts := reasoningSummaryParts existing
    if ¬ existingTextParts.isEmpty ∧ ¬ existingSummaryParts.isEmpty then .ok existing
    else
      let textParts := if ¬ existingTextParts.isEmpty then existingTextParts else reasoningTextParts incoming
      let summaryParts := if ¬ existingSummaryParts.isEmpty then existingSummaryParts else reasoningSummaryParts incoming
      .ok { parts := textParts ++ summaryParts ++ reasoningEncodedParts existing }

def conversationItemMatches (item : ConversationItem) (normalized : NormalizedConversationItem) : Bool :=
  let bodyMatches :=
    if item.kind = .reasoning ∧ normalized.kind = .reasoning then reasoningBodyMatches item.body normalized.body
    else conversationBodyMatches item.body normalized.body
  item.role = normalized.role && item.channel = normalized.channel && item.kind = normalized.kind &&
    item.agentMessage = normalized.agentMessage && bodyMatches && item.callId = normalized.callId

/-! ## The identity of an item -/

/-- A part without the payload it was seen in; a reference to a payload keeps it. -/
def ConversationPart.unplaced : ConversationPart → ConversationPart
  | .json shown _ => .json shown ""
  | part => part

/-- What makes a body the one it is: for reasoning the encoded part, if there is one. -/
def bodyIdentity (kind : ConversationItemKind) (body : ConversationBody) : (String × String) ⊕ List ConversationPart :=
  match kind, reasoningEncodedPart body with
  | .reasoning, some encoded => .inl encoded
  | _, _ => .inr (body.parts.map ConversationPart.unplaced)

/-- What makes an item the one it is. -/
structure Identity where
  role : ConversationRole
  channel : Option ConversationChannel
  kind : ConversationItemKind
  agentMessage : Option AgentMessageMetadata
  body : (String × String) ⊕ List ConversationPart
  callId : Option String
  deriving DecidableEq

def NormalizedConversationItem.identity (n : NormalizedConversationItem) : Identity where
  role := n.role
  channel := n.channel
  kind := n.kind
  agentMessage := n.agentMessage
  body := bodyIdentity n.kind n.body
  callId := n.callId

def ConversationItem.identity (item : ConversationItem) : Identity where
  role := item.role
  channel := item.channel
  kind := item.kind
  agentMessage := item.agentMessage
  body := bodyIdentity item.kind item.body
  callId := item.callId

theorem partMatches_iff {left right} : partMatches left right = true ↔ left.unplaced = right.unplaced := by
  cases left <;> cases right <;> simp [partMatches, ConversationPart.unplaced]

theorem conversationBodyMatches_iff {left right} : conversationBodyMatches left right = true ↔
      left.parts.map ConversationPart.unplaced = right.parts.map ConversationPart.unplaced := by
  obtain ⟨left⟩ := left
  obtain ⟨right⟩ := right
  unfold conversationBodyMatches
  induction left generalizing right with
  | nil => cases right <;> simp
  | cons part left ih =>
    cases right with
    | nil => simp
    | cons part' right =>
      have hrest := ih right
      simp only [List.length_cons, List.zip_cons_cons, List.all_cons, Bool.and_eq_true, decide_eq_true_eq,
        partMatches_iff, List.map_cons, List.cons.injEq, Nat.add_right_cancel_iff] at hrest ⊢
      tauto

theorem encodedPart_unplaced (part : ConversationPart) : encodedPart part.unplaced = encodedPart part := by
  cases part <;> rfl

theorem reasoningEncodedPart_eq (body : ConversationBody) :
    reasoningEncodedPart body = (body.parts.map ConversationPart.unplaced).findSome? encodedPart := by
  rw [reasoningEncodedPart, List.findSome?_map]
  congr 1
  funext part
  exact (encodedPart_unplaced part).symm

theorem reasoningBodyMatches_iff {left right} :
    reasoningBodyMatches left right = true ↔ bodyIdentity .reasoning left = bodyIdentity .reasoning right := by
  have hencoded : left.parts.map ConversationPart.unplaced = right.parts.map ConversationPart.unplaced →
      reasoningEncodedPart left = reasoningEncodedPart right := by
    intro h
    rw [reasoningEncodedPart_eq, reasoningEncodedPart_eq, h]
  unfold reasoningBodyMatches bodyIdentity
  by_cases h : conversationBodyMatches left right = true
  · rw [if_pos h, hencoded (conversationBodyMatches_iff.1 h), conversationBodyMatches_iff.1 h]
    simp
  · rw [if_neg h]
    rw [conversationBodyMatches_iff] at h
    cases hleft : reasoningEncodedPart left <;> cases hright : reasoningEncodedPart right <;> simp [h]

theorem bodyIdentity_of_ne {kind} (h : kind ≠ .reasoning) (body : ConversationBody) :
    bodyIdentity kind body = .inr (body.parts.map ConversationPart.unplaced) := by
  unfold bodyIdentity
  split
  · exact absurd rfl h
  · rfl

/-- **Matching is having one identity.** -/
theorem conversationItemMatches_iff {item normalized} :
    conversationItemMatches item normalized = true ↔ item.identity = normalized.identity := by
  unfold conversationItemMatches ConversationItem.identity NormalizedConversationItem.identity
  by_cases hkind : item.kind = normalized.kind
  · by_cases hreasoning : normalized.kind = .reasoning
    · simp [hkind, hreasoning, reasoningBodyMatches_iff]
      tauto
    · simp [hkind, hreasoning, conversationBodyMatches_iff, bodyIdentity_of_ne]
      tauto
  · simp [hkind]

theorem findSome?_filter_none {parts : List ConversationPart} {p : ConversationPart → Bool}
    (h : ∀ part, p part = true → encodedPart part = none) : (parts.filter p).findSome? encodedPart = none := by
  rw [List.findSome?_eq_none_iff]
  intro part hpart
  exact h part (List.mem_filter.1 hpart).2

theorem findSome?_encodedParts (body : ConversationBody) :
    (reasoningEncodedParts body).findSome? encodedPart = reasoningEncodedPart body := by
  unfold reasoningEncodedParts reasoningEncodedPart
  induction body.parts with
  | nil => rfl
  | cons part parts ih =>
    cases hpart : encodedPart part with
    | none => simpa [hpart] using ih
    | some encoded => simp [hpart]

/-- Merging keeps what the item is known by. -/
theorem bodyIdentity_mergeReasoningBody {existing incoming merged : ConversationBody}
    (h : mergeReasoningBody existing incoming = .ok merged) :
    bodyIdentity .reasoning merged = bodyIdentity .reasoning existing := by
  unfold mergeReasoningBody at h
  split at h
  · cases h
    rfl
  · rename_i hdiffer
    split at h
    · cases h
    · rename_i hsame
      simp only [Bool.not_eq_true, Bool.not_eq_false] at hsame hdiffer
      obtain ⟨encoded, hencoded⟩ : ∃ encoded, reasoningEncodedPart existing = some encoded := by
        rw [reasoningBodyMatches, if_neg (by simp [hdiffer])] at hsame
        cases hexisting : reasoningEncodedPart existing with
        | none => rw [hexisting] at hsame; cases hsame
        | some encoded => exact ⟨encoded, rfl⟩
      dsimp only at h
      split at h
      · cases h
        rfl
      · cases h
        have htext : ∀ part, isText part = true → encodedPart part = none := by
          intro part hpart
          cases part <;> simp_all [isText, encodedPart]
        have hsummary : ∀ part, isSummary part = true → encodedPart part = none := by
          intro part hpart
          cases part <;> simp_all [isSummary, encodedPart]
        have hmerged : ∀ texts summaries : List ConversationPart, texts.findSome? encodedPart = none →
            summaries.findSome? encodedPart = none →
            reasoningEncodedPart ⟨texts ++ summaries ++ reasoningEncodedParts existing⟩ = some encoded := by
          intro texts summaries htexts hsummaries
          rw [reasoningEncodedPart, List.findSome?_append, List.findSome?_append, htexts, hsummaries,
            findSome?_encodedParts, hencoded]
          rfl
        have hnone : ∀ (c : Prop) [Decidable c] (xs ys : List ConversationPart), xs.findSome? encodedPart = none →
            ys.findSome? encodedPart = none → (if c then xs else ys).findSome? encodedPart = none := by
          intro c _ xs ys hxs hys
          split
          · exact hxs
          · exact hys
        unfold bodyIdentity reasoningTextParts reasoningSummaryParts
        rw [hmerged _ _ (hnone _ _ _ (findSome?_filter_none htext) (findSome?_filter_none htext))
          (hnone _ _ _ (findSome?_filter_none hsummary) (findSome?_filter_none hsummary)), hencoded]

end Trace

end Codex
