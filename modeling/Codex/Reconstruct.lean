/-
Rebuilding a session from its rollout
(`core/src/session/rollout_reconstruction.rs`). A scan from the newest record
to the oldest collects the resume metadata and the newest surviving
replacement history; a replay of the records after it rebuilds the history.
The scan keeps one open segment, closed at its `TurnStarted`, and a count of
user turns that rollback markers still have to skip.

The scan here walks the records newest first and carries the newer ones along,
which is the slice `rollout_items[index + 1..]` of the source.
-/
import Codex.ContextManager

namespace Codex

open Text

variable (E : Externals)

/-! ## Legacy compaction (`core/src/compact.rs`) -/

def isImageOpenTagText (text : Text) : Bool :=
  text == "<image>".toList ||
    (stripStart "<image name=".toList text).any (endsWith · ">".toList)

def isAudioOpenTagText (text : Text) : Bool :=
  text == "<audio>".toList ||
    (stripStart "<audio name=".toList text).any (endsWith · ">".toList)

def ContentItem.isInputImage : ContentItem → Bool
  | .inputImage .. => true
  | _ => false

def ContentItem.isInputAudio : ContentItem → Bool
  | .inputAudio .. => true
  | _ => false

/-- The texts `parse_user_message` keeps: the labels around an image or an
audio clip are left out. `previous` is the item before. -/
def userMessageTexts (previous : Option ContentItem) : List ContentItem → List Text
  | [] => []
  | .inputText text :: rest =>
    let isImageLabel := (isImageOpenTagText text && rest.head?.any (·.isInputImage)) ||
      (text == "</image>".toList && previous.any (·.isInputImage))
    let isAudioLabel := (isAudioOpenTagText text && rest.head?.any (·.isInputAudio)) ||
      (text == "</audio>".toList && previous.any (·.isInputAudio))
    (if isImageLabel || isAudioLabel then [] else [text]) ++ userMessageTexts (some (.inputText text)) rest
  | item :: rest => userMessageTexts (some item) rest

/-- `parse_user_message` followed by `UserMessageItem::message`. -/
def parseUserMessage (content : List ContentItem) : Option Text :=
  if isContextualUserMessageContent E content then none
  else some (userMessageTexts none content).flatten

/-- Whether `parse_visible_hook_prompt_message` recognizes a message. -/
def isVisibleHookPromptMessage (content : List ContentItem) : Bool :=
  content.all (fun item => match item with
    | .inputText text => (parseHookPromptFragment E text).isSome || isStandardContextualUserText text
    | _ => false) &&
  content.any (fun item => match item with
    | .inputText text => (parseHookPromptFragment E text).isSome
    | _ => false)

def summaryPrefix : Text :=
  ("Another language model started to solve this problem and produced a summary of its thinking " ++
    "process. You also have access to the state of the tools that were used by that language model. Use " ++
    "this to build on the work that has already been done and avoid duplicating work. Here is the summary " ++
    "produced by the other language model, use the information in this summary to assist with your own " ++
    "analysis:").toList

def isSummaryMessage (message : Text) : Bool := startsWith message (summaryPrefix ++ ['\n'])

structure CompactedUserMessage where
  message : Text
  metadata : Option MessageMetadata

def collectUserMessages (items : List ResponseItem) : List CompactedUserMessage :=
  items.filterMap fun item => match item with
    | .message _ "user" content _ metadata =>
      if isVisibleHookPromptMessage E content then none
      else (parseUserMessage E content).bind fun message =>
        if isSummaryMessage message then none else some { message, metadata }
    | _ => none

/-- The loop of `build_compacted_history_with_limit`, over the messages newest first. -/
def selectMessages : Nat → List CompactedUserMessage → List CompactedUserMessage
  | _, [] => []
  | remaining, m :: older =>
    if remaining = 0 then []
    else if E.approxTokenCount m.message ≤ remaining then
      m :: selectMessages (remaining - E.approxTokenCount m.message) older
    else [{ m with message := E.truncateText m.message remaining }]

def compactUserMessageMaxTokens : Nat := 20000

def userTextMessage (text : Text) (metadata : Option MessageMetadata) : ResponseItem :=
  .message none "user" [.inputText text] none metadata

/-- `build_compacted_history` with no initial context. -/
def buildCompactedHistory (userMessages : List CompactedUserMessage) (summaryText : Text) :
    List ResponseItem :=
  let selected := (selectMessages E compactUserMessageMaxTokens userMessages.reverse).reverse
  let summaryText := if summaryText.isEmpty then "(no summary available)".toList else summaryText
  selected.map (fun m => userTextMessage m.message m.metadata) ++ [userTextMessage summaryText none]

/-! ## World state (`core/src/context/world_state/mod.rs`) -/

def Value.isNull : Value → Bool
  | .null => true
  | _ => false

/-- `Map::insert` -/
def insertEntry (key : String) (value : Value) : List (String × Value) → List (String × Value)
  | [] => [(key, value)]
  | (k, v) :: entries =>
    if key = k then (key, value) :: entries
    else if key < k then (key, value) :: (k, v) :: entries
    else (k, v) :: insertEntry key value entries

/-- `Map::remove` -/
def removeEntry (key : String) (entries : List (String × Value)) : List (String × Value) :=
  entries.filter (·.1 ≠ key)

mutual

def applyMergePatchValue (target : Value) : Value → Value
  | .object patch => .object (applyMergePatchEntries (match target with | .object entries => entries | _ => []) patch)
  | patch => patch
termination_by structural patch => patch

/-- Its loop over the patch's entries. -/
def applyMergePatchEntries (target : List (String × Value)) : List (String × Value) → List (String × Value)
  | [] => target
  | entry :: patch => applyMergePatchEntries (applyMergePatchEntry target entry) patch
termination_by structural patch => patch

def applyMergePatchEntry (target : List (String × Value)) : String × Value → List (String × Value)
  | (key, value) =>
    if value.isNull then removeEntry key target
    else insertEntry key (applyMergePatchValue ((target.lookup key).getD .null) value) target
termination_by structural entry => entry

end

/-- `serde_json::from_value::<WorldStateSnapshot>` -/
def snapshotFromValue : Value → Option WorldStateSnapshot
  | .object entries => some entries
  | _ => none

def WorldStateSnapshot.applyMergePatch (snapshot : WorldStateSnapshot) (patch : Value) :
    Option WorldStateSnapshot :=
  snapshotFromValue (applyMergePatchValue (.object snapshot) patch)

/-- The records that decide the world-state baseline: compactions (`none`) and world-state items. -/
def replayWorldState (baseline : Option WorldStateSnapshot) :
    Option WorldStateItem → Option WorldStateSnapshot
  | none => none
  | some worldState =>
    if worldState.full then snapshotFromValue worldState.state
    else baseline.bind fun snapshot => WorldStateSnapshot.applyMergePatch snapshot worldState.state

/-! ## The scan -/

structure PreviousTurnSettings where
  model : String
  compHash : Option String
  realtimeActive : Option Bool
  deriving DecidableEq

structure ReconstructedWindow where
  number : Nat
  firstId : Option Uuid
  previousId : Option Uuid
  id : Option Uuid
  deriving DecidableEq

inductive TurnReferenceContextItem where
  | neverSet
  | cleared
  | latest (item : TurnContextItem)
  deriving DecidableEq

structure ActiveReplaySegment where
  turnId : Option String := none
  countsAsUserTurn : Bool := false
  previousTurnSettings : Option PreviousTurnSettings := none
  referenceContextItem : TurnReferenceContextItem := .neverSet
  worldStateReplay : List (Option WorldStateItem) := []
  baseReplacementHistory : Option (List ResponseItem) := none
  window : Option ReconstructedWindow := none

def turnIdsAreCompatible (activeTurnId itemTurnId : Option String) : Bool :=
  activeTurnId.all fun turnId => itemTurnId.all fun itemTurnId => itemTurnId == turnId

def compactedWindow (compacted : CompactedItem) : Option ReconstructedWindow :=
  compacted.windowNumber.map fun number =>
    { number
      firstId := compacted.firstWindowId.bind E.parseUuidV7
      previousId := compacted.previousWindowId.bind E.parseUuidV7
      id := compacted.windowId.bind E.parseUuidV7 }

/-- What a record does to the open segment (`active_segment.get_or_insert_with(..)`). -/
def ActiveReplaySegment.record (segment : ActiveReplaySegment) : RolloutItem → ActiveReplaySegment
  | .compacted compacted =>
    { segment with
      worldStateReplay := segment.worldStateReplay ++ [none]
      window := segment.window.or (compactedWindow E compacted)
      referenceContextItem :=
        if segment.referenceContextItem = .neverSet then .cleared else segment.referenceContextItem
      baseReplacementHistory := segment.baseReplacementHistory.or compacted.replacementHistory }
  | .eventMsg (.turnComplete event) => { segment with turnId := segment.turnId.or (some event.turnId) }
  | .eventMsg (.turnAborted event) => { segment with turnId := segment.turnId.or event.turnId }
  | .eventMsg (.userMessage _) | .interAgentCommunication _ => { segment with countsAsUserTurn := true }
  | .turnContext ctx =>
    let turnId := segment.turnId.or ctx.turnId
    if turnIdsAreCompatible turnId ctx.turnId then
      { segment with
        turnId
        previousTurnSettings :=
          some { model := ctx.model, compHash := ctx.compHash, realtimeActive := ctx.realtimeActive }
        referenceContextItem :=
          if segment.referenceContextItem = .neverSet then .latest ctx else segment.referenceContextItem }
    else { segment with turnId }
  | .worldState worldState =>
    { segment with worldStateReplay := segment.worldStateReplay ++ [some worldState] }
  | .responseItem responseItem =>
    { segment with countsAsUserTurn := segment.countsAsUserTurn || isUserTurnBoundary E responseItem }
  | .eventMsg _ | .sessionMeta _ | .interAgentCommunicationMetadata _ => segment

/-- The local variables of the scan. -/
structure ReplayState where
  baseReplacementHistory : Option (List ResponseItem) := none
  previousTurnSettings : Option PreviousTurnSettings := none
  referenceContextItem : TurnReferenceContextItem := .neverSet
  worldStateReplay : List (Option WorldStateItem) := []
  window : Option ReconstructedWindow := none
  pendingRollbackTurns : Nat := 0
  rolloutSuffix : List RolloutItem
  activeSegment : Option ActiveReplaySegment := none

def usizeMax : Nat := 2 ^ 64 - 1

namespace ReplayState

def finalizeActiveSegment (s : ReplayState) (segment : ActiveReplaySegment) : ReplayState :=
  if s.pendingRollbackTurns > 0 then
    if segment.countsAsUserTurn then { s with pendingRollbackTurns := s.pendingRollbackTurns - 1 } else s
  else
    { s with
      worldStateReplay := s.worldStateReplay ++ segment.worldStateReplay
      baseReplacementHistory := s.baseReplacementHistory.or segment.baseReplacementHistory
      window := s.window.or segment.window
      previousTurnSettings :=
        if s.previousTurnSettings.isNone && segment.countsAsUserTurn then segment.previousTurnSettings
        else s.previousTurnSettings
      referenceContextItem :=
        if s.referenceContextItem = .neverSet ∧
            (segment.countsAsUserTurn ∨ segment.referenceContextItem = .cleared) then
          segment.referenceContextItem
        else s.referenceContextItem }

/-- `active_segment.take()` -/
def takeSegment (s : ReplayState) : ReplayState := { s with activeSegment := none }

def finalizeTaken (s : ReplayState) : ReplayState :=
  match s.activeSegment with
  | some segment => s.takeSegment.finalizeActiveSegment segment
  | none => s

def getSegment (s : ReplayState) : ActiveReplaySegment := s.activeSegment.getD {}

def setSegment (s : ReplayState) (segment : ActiveReplaySegment) : ReplayState :=
  { s with activeSegment := some segment }

/-- The body of the scan's loop at `item`, with the newer items after it. -/
def observe (s : ReplayState) (item : RolloutItem) (newer : List RolloutItem) : ReplayState :=
  match item with
  | .compacted compacted =>
    let captured := s.getSegment.baseReplacementHistory.isNone && compacted.replacementHistory.isSome
    { s.setSegment (s.getSegment.record E item) with
      rolloutSuffix := if captured then newer else s.rolloutSuffix }
  | .eventMsg (.threadRolledBack numTurns) =>
    { s with pendingRollbackTurns := min (s.pendingRollbackTurns + numTurns.toNat) usizeMax }
  | .eventMsg (.turnAborted event) =>
    if s.activeSegment.isSome || event.turnId.isSome then s.setSegment (s.getSegment.record E item) else s
  | .eventMsg (.turnStarted event) =>
    if s.activeSegment.any fun segment => turnIdsAreCompatible segment.turnId (some event.turnId) then
      s.finalizeTaken
    else s
  | .eventMsg (.turnComplete _) | .eventMsg (.userMessage _) | .turnContext _ | .worldState _
  | .responseItem _ | .interAgentCommunication _ => s.setSegment (s.getSegment.record E item)
  | .eventMsg _ | .sessionMeta _ | .interAgentCommunicationMetadata _ => s

/-- The loop's `break`. -/
def isResolved (s : ReplayState) : Bool :=
  s.baseReplacementHistory.isSome && s.previousTurnSettings.isSome && s.referenceContextItem ≠ .neverSet

/-- The loop over the items, newest first; `newer` are those already seen, in chronological order. -/
def scan (s : ReplayState) (newer : List RolloutItem) : List RolloutItem → ReplayState
  | [] => s
  | item :: older =>
    let s := s.observe E item newer
    if s.isResolved then s else s.scan (item :: newer) older

end ReplayState

/-! ## The replay -/

/-- The local variables of the replay. -/
structure ForwardReplay where
  history : ContextManager := {}
  sawLegacyCompactionWithoutReplacementHistory : Bool := false

namespace ForwardReplay

def step (r : ForwardReplay) : RolloutItem → ForwardReplay
  | .responseItem item => { r with history := r.history.recordItem E item }
  | .interAgentCommunication communication =>
    { r with history := r.history.recordItem E communication.toModelInputItem }
  | .compacted compacted =>
    match compacted.replacementHistory with
    | some replacementHistory => { r with history := r.history.replace replacementHistory }
    | none =>
      { history := r.history.replace
          (buildCompactedHistory E (collectUserMessages E r.history.items) compacted.message)
        sawLegacyCompactionWithoutReplacementHistory := true }
  | .eventMsg (.threadRolledBack numTurns) => { r with history := r.history.dropLastNUserTurns E numTurns }
  | .eventMsg _ | .turnContext _ | .worldState _ | .sessionMeta _ | .interAgentCommunicationMetadata _ => r

def run (r : ForwardReplay) (items : List RolloutItem) : ForwardReplay := items.foldl (step E) r

end ForwardReplay

/-! ## Reconstruction -/

structure RolloutReconstruction where
  history : List ResponseItem
  previousTurnSettings : Option PreviousTurnSettings
  referenceContextItem : Option TurnContextItem
  worldStateBaseline : Option WorldStateSnapshot
  windowNumber : Nat
  firstWindowId : Option Uuid
  previousWindowId : Option Uuid
  windowId : Option Uuid

def reconstructedWindowFromSessionContextWindow (w : SessionContextWindow) : Option ReconstructedWindow :=
  (E.parseUuidV7 w.windowId).map fun id => { number := 0, firstId := some id, previousId := none, id := some id }

def RolloutItem.isCompacted : RolloutItem → Bool
  | .compacted _ => true
  | _ => false

def initialWindow (items : List RolloutItem) : Option ReconstructedWindow :=
  if items.any (fun item => match item with
      | .compacted compacted => compacted.windowNumber.isNone
      | _ => false) then none
  else items.findSome? fun item => match item with
    | .sessionMeta line => line.contextWindow.bind (reconstructedWindowFromSessionContextWindow E)
    | _ => none

def u64Max : Nat := 2 ^ 64 - 1

/-- The scan of a whole rollout, its last open segment finalized. -/
def scanRollout (items : List RolloutItem) : ReplayState :=
  (({ rolloutSuffix := items } : ReplayState).scan E [] items.reverse).finalizeTaken

/-- The replay of what the scan left to replay, from the base it found. -/
def replaySuffix (s : ReplayState) : ForwardReplay :=
  let history : ContextManager := match s.baseReplacementHistory with
    | some base => ({} : ContextManager).replace base
    | none => {}
  ({ history } : ForwardReplay).run E s.rolloutSuffix

def reconstructHistoryFromRollout (items : List RolloutItem) : RolloutReconstruction :=
  let s := scanRollout E items
  let replay := replaySuffix E s
  let referenceContextItem := match s.referenceContextItem with
    | .neverSet | .cleared => none
    | .latest item => some item
  let window := (s.window.or (initialWindow E items)).getD
    { number := min (items.countP (·.isCompacted)) u64Max, firstId := none, previousId := none, id := none }
  { history := replay.history.items
    previousTurnSettings := s.previousTurnSettings
    referenceContextItem :=
      if replay.sawLegacyCompactionWithoutReplacementHistory then none else referenceContextItem
    worldStateBaseline := s.worldStateReplay.reverse.foldl replayWorldState none
    windowNumber := window.number
    firstWindowId := window.firstId
    previousWindowId := window.previousId
    windowId := window.id }

end Codex
