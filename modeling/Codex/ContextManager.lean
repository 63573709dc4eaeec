/-
The model-visible history (`core/src/context_manager/history.rs`) and the
classification of its items (`core/src/event_mapping.rs`,
`core/src/context/contextual_user_message.rs`): which items begin a turn, and
which are context injected around one. Rolling back turns cuts the history
before a boundary; `dropLastNUserTurns_items` says that this is
`MarkedList.dropMarks`.
-/
import Codex.Protocol
import Codex.Lib.MarkedList

namespace Codex

open Text

abbrev Uuid := String

/-- XML and JSON readers, the token estimate and truncation, and the UUID reader (versions other than 7 are left out). -/
structure Externals where
  parseHookPromptXml : Text → Option HookPromptFragment
  parseInterAgentCommunication : Text → Option InterAgentCommunication
  truncateFunctionOutputPayload : FunctionCallOutputPayload → FunctionCallOutputPayload
  approxTokenCount : Text → Nat
  truncateText : Text → Nat → Text
  parseUuidV7 : String → Option Uuid

/-- The externals on short plain texts: nothing is XML, JSON or a UUID, and nothing is truncated. -/
def Externals.plain : Externals where
  parseHookPromptXml _ := none
  parseInterAgentCommunication _ := none
  truncateFunctionOutputPayload output := output
  approxTokenCount text := (text.length + 3) / 4
  truncateText text _ := text
  parseUuidV7 _ := none

variable (E : Externals)

/-! ## Contextual fragments -/

def parseHookPromptFragment (text : Text) : Option HookPromptFragment :=
  (E.parseHookPromptXml (trim text)).filter fun fragment => !(trim fragment.hookRunId).isEmpty

/-- `matches_marked_text`, for the ASCII markers the code registers. -/
def matchesMarkedText (startMarker endMarker text : Text) : Bool :=
  if startMarker.isEmpty || endMarker.isEmpty then false
  else
    let trimmed := trimStart text
    let startsWithMarker := eqIgnoreAsciiCase (trimmed.take startMarker.length) startMarker
    let trimmed := trimEnd trimmed
    let endsWithMarker := eqIgnoreAsciiCase (trimmed.drop (trimmed.length - endMarker.length)) endMarker
    startsWithMarker && endsWithMarker

/-- `AdditionalContextUserFragment::matches_text` -/
def matchesAdditionalContext (text : Text) : Bool :=
  match stripStart "<external_".toList (trim text) with
  | none => false
  | some rest =>
    match splitOnce ">".toList rest with
    | none => false
    | some (key, valueAndClose) => endsWith valueAndClose ("</external_".toList ++ key ++ ">".toList)

def isValidSource : Text → Bool
  | [] => false
  | first :: chars => first.isLower && chars.all fun ch => ch.isLower || ch.isDigit || ch == '_'

/-- `InternalModelContextFragment::matches_text` -/
def matchesInternalModelContext (text : Text) : Bool :=
  let trimmed := trim text
  if startsWith trimmed "<goal_context>".toList && endsWith trimmed "</goal_context>".toList then true
  else match stripStart "<codex_internal_context".toList trimmed with
  | none => false
  | some rest =>
    match stripStart " source=\"".toList rest with
    | none => false
    | some rest =>
      match splitOnce "\">".toList rest with
      | none => false
      | some (source, bodyAndClose) =>
        isValidSource source && endsWith bodyAndClose "</codex_internal_context>".toList

/-- `is_standard_contextual_user_text`: the registered fragments in their order. -/
def isStandardContextualUserText (text : Text) : Bool :=
  matchesMarkedText "# AGENTS.md instructions".toList "</INSTRUCTIONS>".toList text ||
  matchesMarkedText "<environment_context>".toList "</environment_context>".toList text ||
  matchesAdditionalContext text ||
  matchesMarkedText "<skill>".toList "</skill>".toList text ||
  matchesMarkedText "<user_shell_command>".toList "</user_shell_command>".toList text ||
  matchesMarkedText "<turn_aborted>".toList "</turn_aborted>".toList text ||
  matchesMarkedText "<subagent_notification>".toList "</subagent_notification>".toList text ||
  matchesInternalModelContext text ||
  matchesMarkedText "<recommended_plugins>".toList "</recommended_plugins>".toList text ||
  startsWith (trim text)
    "Warning: The maximum number of unified exec processes you can keep open is".toList ||
  (startsWith (trim text) "Warning: apply_patch was requested via ".toList &&
    endsWith (trim text) "Use the apply_patch tool instead of exec_command.".toList) ||
  startsWith (trim text)
    "Warning: Your account was flagged for potentially high-risk cyber activity".toList

def isContextualUserFragment : ContentItem → Bool
  | .inputText text => (parseHookPromptFragment E text).isSome || isStandardContextualUserText text
  | _ => false

def isContextualUserMessageContent (message : List ContentItem) : Bool :=
  message.any (isContextualUserFragment E)

def contextualDeveloperPrefixes : List Text :=
  ["<permissions instructions>".toList, "<model_switch>".toList, "<apps_instructions>".toList,
    "<collaboration_mode>".toList, "<multi_agent_mode>".toList, "<environments_instructions>".toList,
    "<git_attribution>".toList, "<plugins_instructions>".toList, "<realtime_conversation>".toList,
    "<skills_instructions>".toList, "<personality_spec>".toList, "<token_budget>".toList,
    "<context_window>".toList, "<context_window_guidance>".toList, "<rollout_budget>".toList]

def isContextualDevFragment : ContentItem → Bool
  | .inputText text =>
    contextualDeveloperPrefixes.any fun pre => eqIgnoreAsciiCase ((trimStart text).take pre.length) pre
  | _ => false

def isContextualDevMessageContent (message : List ContentItem) : Bool :=
  message.any isContextualDevFragment

def hasNonContextualDevMessageContent (message : List ContentItem) : Bool :=
  message.any (!isContextualDevFragment ·)

def fromMessageContent : List ContentItem → Option InterAgentCommunication
  | [.inputText text] | [.outputText text] => E.parseInterAgentCommunication text
  | _ => none

/-- `is_inter_agent_instruction_content` -/
def isMessageContent (content : List ContentItem) : Bool := (fromMessageContent E content).isSome

def isUserTurnBoundary : ResponseItem → Bool
  | .agentMessage .. => true
  | .message _ role content _ _ =>
    (role == "user" && !isContextualUserMessageContent E content) ||
      (role == "assistant" && isMessageContent E content)
  | _ => false

/-! ## The history -/

/-- `WorldStateSnapshot`: the sections by their ids. -/
abbrev WorldStateSnapshot := List (String × Value)

structure ContextManager where
  items : List ResponseItem := []
  historyVersion : Nat := 0
  referenceContextItem : Option TurnContextItem := none
  worldStateBaseline : Option WorldStateSnapshot := none

def isApiMessage : ResponseItem → Bool
  | .message _ role _ _ _ => role != "system"
  | .compactionTrigger | .other => false
  | _ => true

/-- `ContextManager::process_item`; the truncation policy is the externals'. -/
def processItem : ResponseItem → ResponseItem
  | .functionCallOutput id callId output metadata =>
    .functionCallOutput id callId (E.truncateFunctionOutputPayload output) metadata
  | .customToolCallOutput id callId name output metadata =>
    .customToolCallOutput id callId name (E.truncateFunctionOutputPayload output) metadata
  | item => item

def userMessagePositions (items : List ResponseItem) : List Nat :=
  items.findIdxs (isUserTurnBoundary E)

namespace ContextManager

def recordItem (history : ContextManager) (item : ResponseItem) : ContextManager :=
  if isApiMessage item then { history with items := history.items ++ [processItem E item] } else history

def replace (history : ContextManager) (items : List ResponseItem) : ContextManager :=
  { history with items, historyVersion := min (history.historyVersion + 1) (2 ^ 64 - 1), worldStateBaseline := none }

/-- `trim_pre_turn_context_updates`: the adjusted cut, and the history whose
reference baseline a trimmed mixed bundle clears. -/
def trimPreTurnContextUpdates (history : ContextManager) (snapshot : List ResponseItem)
    (firstInstructionTurnIdx : Nat) : Nat → ContextManager × Nat
  | 0 => (history, 0)
  | cutIdx + 1 =>
    if cutIdx + 1 > firstInstructionTurnIdx then
      match snapshot[cutIdx]? with
      | some (.message _ role content _ _) =>
        if role == "developer" && isContextualDevMessageContent content then
          let history :=
            if hasNonContextualDevMessageContent content then { history with referenceContextItem := none }
            else history
          trimPreTurnContextUpdates history snapshot firstInstructionTurnIdx cutIdx
        else if role == "user" && isContextualUserMessageContent E content then
          trimPreTurnContextUpdates history snapshot firstInstructionTurnIdx cutIdx
        else (history, cutIdx + 1)
      | _ => (history, cutIdx + 1)
    else (history, cutIdx + 1)

def dropLastNUserTurns (history : ContextManager) (numTurns : UInt32) : ContextManager :=
  if numTurns = 0 then history
  else
    let snapshot := history.items
    let userPositions := userMessagePositions E snapshot
    match userPositions.head? with
    | none => history.replace snapshot
    | some firstInstructionTurnIdx =>
      let nFromEnd := numTurns.toNat
      let cutIdx :=
        if nFromEnd ≥ userPositions.length then firstInstructionTurnIdx
        else userPositions.getD (userPositions.length - nFromEnd) 0
      let (history, cutIdx) :=
        trimPreTurnContextUpdates E history snapshot firstInstructionTurnIdx cutIdx
      history.replace (snapshot.take cutIdx)

end ContextManager

/-! ## Rollback on the items alone -/

/-- The items a rollback trims above its cut. -/
def isContextUpdate : ResponseItem → Bool
  | .message _ role content _ _ =>
    (role == "developer" && isContextualDevMessageContent content) ||
      (role == "user" && isContextualUserMessageContent E content)
  | _ => false

theorem not_isContextUpdate_of_boundary (item : ResponseItem) (h : isUserTurnBoundary E item = true) :
    isContextUpdate E item = false := by
  cases item with
  | message id role content phase metadata =>
    simp only [isUserTurnBoundary, Bool.or_eq_true, Bool.and_eq_true, beq_iff_eq, Bool.not_eq_true'] at h
    rcases h with ⟨hr, hc⟩ | ⟨hr, hc⟩
    · simp [isContextUpdate, hr, hc]
    · simp [isContextUpdate, hr]
  | _ => rfl

variable (history : ContextManager)

namespace ContextManager

variable {E}

/-- One step of the trim walk, above the first instruction turn. -/
theorem trim_step {snapshot} {first cutIdx : Nat}
    {item} (hcut : first < cutIdx + 1) (hitem : snapshot[cutIdx]? = some item) :
    ∃ history', trimPreTurnContextUpdates E history snapshot first (cutIdx + 1) =
      if isContextUpdate E item then trimPreTurnContextUpdates E history' snapshot first cutIdx
      else (history, cutIdx + 1) := by
  rw [trimPreTurnContextUpdates, if_pos hcut, hitem]
  cases item with
  | message id role content phase metadata =>
    simp only
    split
    · next hd =>
      have hc : isContextUpdate E (.message id role content phase metadata) = true := by
        simp [isContextUpdate, hd]
      simp only [if_pos hc]
      exact ⟨_, rfl⟩
    · next hd =>
      split
      · next hu => exact ⟨history, by rw [if_pos (by simp [isContextUpdate, hu])]⟩
      · next hu => exact ⟨history, by rw [if_neg (by simp [isContextUpdate, hd, hu])]⟩
  | _ => exact ⟨history, rfl⟩

/-- The walk stops by itself: what it trims are the context updates the cut leaves last. -/
theorem take_trimPreTurnContextUpdates {snapshot : List ResponseItem} {first : Nat}
    (hfirst : ∀ item, snapshot[first]? = some item → isContextUpdate E item = false) {cutIdx : Nat}
    (hcut : first < cutIdx) (hlen : cutIdx ≤ snapshot.length) :
    snapshot.take (trimPreTurnContextUpdates E history snapshot first cutIdx).2 =
      (snapshot.take cutIdx).rdropWhile (isContextUpdate E) := by
  induction cutIdx generalizing history with
  | zero => omega
  | succ cutIdx ih =>
    have hitem : snapshot[cutIdx]? = some (snapshot[cutIdx]) := List.getElem?_eq_getElem (by omega)
    obtain ⟨history', hstep⟩ := trim_step (E := E) history hcut hitem
    rw [hstep, ← List.take_append_getElem (by omega : cutIdx < snapshot.length)]
    cases hc : isContextUpdate E snapshot[cutIdx] with
    | true =>
      have hne : first ≠ cutIdx := by
        rintro rfl
        rw [hfirst _ hitem] at hc
        cases hc
      rw [if_pos rfl, List.rdropWhile_concat_pos _ _ _ hc]
      exact ih history' (by omega) (by omega)
    | false =>
      rw [if_neg (by simp), List.rdropWhile_concat_neg _ _ _ (by simp [hc]),
        List.take_append_getElem (by omega : cutIdx < snapshot.length)]

theorem trimPreTurnContextUpdates_first (snapshot : List ResponseItem) (first : Nat) :
    trimPreTurnContextUpdates E history snapshot first first = (history, first) := by
  cases first with
  | zero => rfl
  | succ first => rw [trimPreTurnContextUpdates, if_neg (by omega)]

/-- **Rollback on the items** drops the marks of the last turns. -/
theorem dropLastNUserTurns_items (numTurns : UInt32) : (history.dropLastNUserTurns E numTurns).items =
      MarkedList.dropMarks (isUserTurnBoundary E) (isContextUpdate E) numTurns.toNat history.items := by
  have hlen : (userMessagePositions E history.items).length = history.items.countP (isUserTurnBoundary E) := by
    simp [userMessagePositions]
  unfold dropLastNUserTurns MarkedList.dropMarks
  by_cases h0 : numTurns = 0
  · simp [h0]
  have hn : numTurns.toNat ≠ 0 := fun h => h0 (UInt32.toNat_inj.1 h)
  rw [if_neg h0, ← hlen]
  cases hhead : (userMessagePositions E history.items).head? with
  | none =>
    rw [List.head?_eq_none_iff] at hhead
    simp [hhead, replace]
  | some first =>
    have hfirst : (userMessagePositions E history.items)[0]? = some first := by
      rwa [← List.head?_eq_getElem?]
    have hpos : 0 < (userMessagePositions E history.items).length :=
      (List.getElem?_eq_some_iff.1 hfirst).1
    rw [if_neg (by omega)]
    by_cases hall : (userMessagePositions E history.items).length ≤ numTurns.toNat
    · simp only [hhead, ge_iff_le, if_pos hall, trimPreTurnContextUpdates_first, replace]
      exact MarkedList.take_findIdxs hfirst
    · simp only [hhead, ge_iff_le, if_neg hall, replace]
      generalize hk : (userMessagePositions E history.items).length - numTurns.toNat = k
      have hklt : k < (userMessagePositions E history.items).length := by omega
      have hcut := List.getElem?_eq_getElem hklt
      obtain ⟨hlt, hboundary⟩ := List.mem_findIdxs_iff_exists_getElem_pos.1 (List.mem_of_getElem? hfirst)
      rw [List.getD_eq_getElem?_getD, hcut, Option.getD_some, take_trimPreTurnContextUpdates]
      · rw [MarkedList.take_findIdxs hcut]
      · intro item hitem
        obtain ⟨hi, rfl⟩ := List.getElem?_eq_some_iff.1 hitem
        exact not_isContextUpdate_of_boundary E _ hboundary
      · have hpw : (userMessagePositions E history.items).Pairwise (· < ·) := List.pairwise_findIdxs
        obtain ⟨h0', hf⟩ := List.getElem?_eq_some_iff.1 hfirst
        rw [← hf]
        exact List.pairwise_iff_getElem.1 hpw 0 k h0' hklt (by omega)
      · have := List.lt_add_of_mem_findIdxs _ (List.mem_of_getElem? hcut)
        omega

/-! ## Dropping turns again -/

/-- What is left is the history up to context updates before the cut, with the turns behind it. -/
theorem dropLastNUserTurns_split (n : UInt32) :
    ∃ trimmed dropped, history.items = (history.dropLastNUserTurns E n).items ++ trimmed ++ dropped ∧
      (∀ item ∈ trimmed, isContextUpdate E item = true) ∧ (∀ item ∈ dropped.head?, isUserTurnBoundary E item = true) ∧
      dropped.countP (isUserTurnBoundary E) = min n.toNat (history.items.countP (isUserTurnBoundary E)) := by
  rw [dropLastNUserTurns_items]
  exact MarkedList.exists_dropMarks_append (not_isContextUpdate_of_boundary E) n.toNat history.items

/-- **Turns dropped in two goes** leave the items that are left when they are dropped in one. -/
theorem dropLastNUserTurns_dropLastNUserTurns {n m} (h : n.toNat + m.toNat < 2 ^ 32) :
    ((history.dropLastNUserTurns E n).dropLastNUserTurns E m).items = (history.dropLastNUserTurns E (n + m)).items := by
  have hsum : (n + m).toNat = n.toNat + m.toNat := by
    rw [UInt32.toNat_add, Nat.mod_eq_of_lt h]
  rw [dropLastNUserTurns_items, dropLastNUserTurns_items, dropLastNUserTurns_items,
    MarkedList.dropMarks_dropMarks (not_isContextUpdate_of_boundary E), hsum]

/-- **Dropping turns** composes, and leaves a beginning of the history: behind it are only context updates, up to
the boundary of the first turn that is dropped. -/
theorem dropping_turns_composes (history : ContextManager) :
    (∀ n m : UInt32, n.toNat + m.toNat < 2 ^ 32 →
      ((history.dropLastNUserTurns E n).dropLastNUserTurns E m).items = (history.dropLastNUserTurns E (n + m)).items) ∧
    ∀ n : UInt32, ∃ trimmed dropped, history.items = (history.dropLastNUserTurns E n).items ++ trimmed ++ dropped ∧
      (∀ item ∈ trimmed, isContextUpdate E item = true) ∧ (∀ item ∈ dropped.head?, isUserTurnBoundary E item = true) ∧
      dropped.countP (isUserTurnBoundary E) = min n.toNat (history.items.countP (isUserTurnBoundary E)) :=
  ⟨fun _ _ => history.dropLastNUserTurns_dropLastNUserTurns, history.dropLastNUserTurns_split⟩

/-- Two turns, with permissions told before the second. -/
def twoTurns : ContextManager where
  items := [.message none "user" [.inputText "a".toList] none none,
    .message none "developer" [.inputText "<permissions instructions>".toList] none none,
    .message none "user" [.inputText "b".toList] none none]

theorem dropping_turns_composes_twoTurns :
    ((twoTurns.dropLastNUserTurns Externals.plain 1).dropLastNUserTurns Externals.plain 1).items =
      (twoTurns.dropLastNUserTurns Externals.plain (1 + 1)).items :=
  (dropping_turns_composes twoTurns).1 1 1 (by decide)

end ContextManager

end Codex
