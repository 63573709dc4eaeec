/-
Loading the bounded model context (`rollout/src/model_context.rs`, driven by
`thread-store/src/local/model_context.rs`). A paginated rollout is read newest
record first, until the records read hold a compaction to start the replay
from and a whole user turn to take the resume metadata from; the records read
and the canonical session metadata are then reconstructed instead of the whole
rollout. The scan keeps its own, simpler account of the open turn.
-/
import Codex.Reconstruct

namespace Codex

variable (E : Externals)

/-- `ModelContextScanProgress`; `more` is its `Continue`. -/
inductive ModelContextScanProgress where
  | more
  | complete
  deriving DecidableEq

structure ActiveTurnSegment where
  turnId : Option String := none
  hasUserTurn : Bool := false
  hasTurnContext : Bool := false
  deriving DecidableEq

structure ModelContextScan where
  itemsNewestFirst : List RolloutItem := []
  sawCompaction : Bool := false
  sawCompletedTurnContext : Bool := false
  mustScanToStart : Bool := false
  activeSegment : ActiveTurnSegment := {}

def responseItemCountsAsUserTurn : ResponseItem → Bool
  | .agentMessage .. => true
  | .message _ role content _ _ => role == "assistant" && isMessageContent E content
  | _ => false

def TurnItem.isUserMessage : TurnItem → Bool
  | .userMessage _ => true
  | _ => false

/-- What a record does to the open turn. -/
def ActiveTurnSegment.record (segment : ActiveTurnSegment) : RolloutItem → ActiveTurnSegment
  | .eventMsg (.itemCompleted turnId item) =>
    { segment with
      turnId := segment.turnId.or (some turnId)
      hasUserTurn := segment.hasUserTurn ||
        (turnIdsAreCompatible (segment.turnId.or (some turnId)) (some turnId) && item.isUserMessage) }
  | .eventMsg (.turnComplete event) => { segment with turnId := segment.turnId.or (some event.turnId) }
  | .eventMsg (.turnAborted event) => { segment with turnId := segment.turnId.or event.turnId }
  | .turnContext context =>
    { segment with
      turnId := segment.turnId.or context.turnId
      hasTurnContext := segment.hasTurnContext ||
        turnIdsAreCompatible (segment.turnId.or context.turnId) context.turnId }
  | .responseItem responseItem =>
    { segment with hasUserTurn := segment.hasUserTurn || responseItemCountsAsUserTurn E responseItem }
  | .interAgentCommunication _ | .eventMsg (.userMessage _) => { segment with hasUserTurn := true }
  | .eventMsg _ | .sessionMeta _ | .interAgentCommunicationMetadata _ | .worldState _ | .compacted _ => segment

namespace ModelContextScan

def hasBoundedCutoff (scan : ModelContextScan) : Bool :=
  !scan.mustScanToStart && scan.sawCompaction && scan.sawCompletedTurnContext

def finalizeActiveSegment (scan : ModelContextScan) : ModelContextScan :=
  { scan with
    sawCompletedTurnContext := scan.sawCompletedTurnContext ||
      (scan.activeSegment.hasUserTurn && scan.activeSegment.hasTurnContext)
    activeSegment := {} }

/-- The `match` of `observe`. -/
def advance (scan : ModelContextScan) (item : RolloutItem) : ModelContextScan :=
  match item with
  | .compacted compacted =>
    if compacted.replacementHistory.isNone || compacted.windowNumber.isNone then
      { scan with mustScanToStart := true }
    else { scan with sawCompaction := true }
  | .eventMsg (.threadRolledBack _) => { scan with mustScanToStart := true }
  | .eventMsg (.turnStarted event) =>
    if turnIdsAreCompatible scan.activeSegment.turnId (some event.turnId) then scan.finalizeActiveSegment
    else scan
  | item => { scan with activeSegment := scan.activeSegment.record E item }

def observe (scan : ModelContextScan) (item : RolloutItem) : ModelContextScan × ModelContextScanProgress :=
  if scan.mustScanToStart then (scan, .more)
  else
    (scan.advance E item, if (scan.advance E item).hasBoundedCutoff then .complete else .more)

def push (scan : ModelContextScan) (item : RolloutItem) : ModelContextScan × ModelContextScanProgress :=
  let (observed, progress) := scan.observe E item
  ({ observed with itemsNewestFirst := observed.itemsNewestFirst ++ [item] }, progress)

def finish (scan : ModelContextScan) (sessionMeta : SessionMetaLine) : List RolloutItem :=
  if scan.hasBoundedCutoff then .sessionMeta sessionMeta :: scan.itemsNewestFirst.reverse
  else scan.itemsNewestFirst.reverse

/-- The reader's loop over the records, newest first. -/
def collect (scan : ModelContextScan) : List RolloutItem → ModelContextScan
  | [] => scan
  | item :: older =>
    match scan.push E item with
    | (scan, .complete) => scan
    | (scan, .more) => scan.collect older

end ModelContextScan

def RolloutItem.isSessionMeta : RolloutItem → Bool
  | .sessionMeta _ => true
  | _ => false

/-- The records of a lineage in chronological order: of each physical segment,
those after its last session metadata. -/
def lineageItems (segments : List (List RolloutItem)) : List RolloutItem :=
  segments.flatMap fun segment => segment.rtakeWhile (!·.isSessionMeta)

/-- `scan_model_context_from_lineage_blocking` -/
def scanModelContextFromLineage (segments : List (List RolloutItem)) (sessionMeta : SessionMetaLine) :
    List RolloutItem :=
  let items := (({} : ModelContextScan).collect E (lineageItems segments).reverse).finish sessionMeta
  if items.head?.any (·.isSessionMeta) then items else .sessionMeta sessionMeta :: items

end Codex
