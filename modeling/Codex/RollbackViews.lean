/-
What a rollback means to the two readers of a rollout. Reconstruction drops
the last user turns from the history it puts before the model; the history
builder drops the last turns of any kind from the list it shows. Both take the
count from the same marker, which is documented as a count of user turns.

A turn is read here with the user-turn boundaries it holds.
-/
import Codex.ForkTurns
import Codex.TurnForks
import Codex.Lib.MarkedStack

namespace Codex

open MarkedStack

/-- The user-turn boundaries a turn holds. -/
def BracketedTurn.boundaries (E : Externals) (turn : BracketedTurn) : List ResponseItem :=
  (modelItems turn.body).filter (isUserTurnBoundary E)

def BracketedTurn.hasBoundary (E : Externals) (turn : BracketedTurn) : Bool := !(turn.boundaries E).isEmpty

def Block.turns : Block → List BracketedTurn
  | .turn bracketed => [bracketed]
  | .rolledBack _ => []

def boundariesOf (E : Externals) (blocks : List Block) (turnId : String) : List ResponseItem :=
  ((blocks.flatMap Block.turns).filter (·.started.turnId == turnId)).flatMap (·.boundaries E)

/-- Whole turns that are started once each and hold at most one boundary, without compactions. -/
@[mk_iff]
structure PlainTurns (E : Externals) (D : ItemDisplay) (blocks : List Block) : Prop where
  bracketed : TurnsBracketed E D (blocks.flatMap Block.items)
  startedOnce : (startedTurnIds (blocks.flatMap Block.items)).Nodup
  notCompacted : ∀ item ∈ blocks.flatMap Block.items, item.isCompacted = false
  oneBoundary : ∀ turn ∈ blocks.flatMap Block.turns, (turn.boundaries E).length ≤ 1

instance PlainTurns.decidable (E : Externals) (D : ItemDisplay) (blocks : List Block) : Decidable (PlainTurns E D blocks) :=
  decidable_of_iff _ (plainTurns_iff E D blocks).symm

/-- The turns shown that hold a boundary are the turns whose boundary is in the history. -/
def RollbacksAgree (E : Externals) (D : ItemDisplay) (blocks : List Block) : Prop :=
  let items := blocks.flatMap Block.items
  (buildTurnsFromRolloutItems E D items).flatMap (fun turn => boundariesOf E blocks turn.id) =
    (reconstructHistoryFromRollout E items).history.filter (isUserTurnBoundary E)

def Block.stackOp : Block → StackOp BracketedTurn
  | .turn bracketed => .push bracketed
  | .rolledBack numTurns => .pop numTurns.toNat

variable {E : Externals} {D : ItemDisplay}

/-! ## The clients' turns -/

variable {items : List RolloutItem} {blocks : List Block} {turn : BracketedTurn}

theorem foldl_stackIds_local (h : ∀ item ∈ items, item.isBracket = false) (ids : List String) :
    items.foldl ThreadHistoryBuilder.stackIds ids = ids := by
  induction items generalizing ids with
  | nil => rfl
  | cons item items ih =>
    have hitem : ThreadHistoryBuilder.stackIds ids item = ids := by
      have hb := h item (by simp)
      cases item with
      | eventMsg event => cases event <;> first | exact List.append_nil _ | cases hb
      | _ => exact List.append_nil _
    rw [List.foldl_cons, hitem, ih fun i hi => h i (by simp [hi])]

theorem BracketedTurn.foldl_stackIds (turn : BracketedTurn) (ids : List String) :
    turn.items.foldl ThreadHistoryBuilder.stackIds ids = ids ++ [turn.started.turnId] := by
  rw [BracketedTurn.items, List.foldl_cons, List.foldl_append, foldl_stackIds_local turn.bodyLocal]
  exact List.append_nil _

theorem foldl_stackIds_blocks (blocks : List Block) (s : List BracketedTurn) :
    (blocks.flatMap Block.items).foldl ThreadHistoryBuilder.stackIds (s.map (·.started.turnId)) =
      ((blocks.map Block.stackOp).foldl step s).map (·.started.turnId) := by
  induction blocks generalizing s with
  | nil => rfl
  | cons block blocks ih =>
    rw [List.flatMap_cons, List.foldl_append, List.map_cons, List.foldl_cons, ← ih]
    cases block with
    | turn bracketed => simp [Block.items, bracketed.foldl_stackIds, Block.stackOp, step]
    | rolledBack numTurns => simp [Block.items, RolloutItem.rollback, ThreadHistoryBuilder.stackIds, Block.stackOp, step, popped]

/-- **The turns the builder shows** are those of the full stack. -/
theorem buildTurns_ids (h : PlainTurns E D blocks) :
    (buildTurnsFromRolloutItems E D (blocks.flatMap Block.items)).map (·.id) =
      (run (blocks.map Block.stackOp)).map (·.started.turnId) := by
  obtain ⟨p, hp⟩ := Option.isSome_iff_exists.1 h.bracketed
  have hat : ({} : ThreadHistoryBuilder).At .between := rfl
  have hfresh : ({} : ThreadHistoryBuilder).Fresh (blocks.flatMap Block.items ++ []) := by
    rw [List.append_nil]
    exact h.startedOnce
  obtain ⟨hat', -, -⟩ := ThreadHistoryBuilder.run_started hat hp hfresh
  rw [buildTurnsFromRolloutItems, ThreadHistoryBuilder.finish_eq hat', ThreadHistoryBuilder.run_ids hat hp hfresh]
  exact foldl_stackIds_blocks blocks []

/-! ## The boundaries in the history -/

theorem filter_recordedItems (items : List ResponseItem) :
    (recordedItems E items).filter (isUserTurnBoundary E) = items.filter (isUserTurnBoundary E) := by
  induction items with
  | nil => rfl
  | cons item items ih =>
    have hsplit : recordedItems E (item :: items) = recordedItems E [item] ++ recordedItems E items := by
      simp only [recordedItems, ← List.map_append, ← List.filter_append, List.singleton_append]
    rw [hsplit, List.filter_append, ih]
    cases hb : isUserTurnBoundary E item with
    | true =>
      obtain ⟨hapi, hself⟩ := isApiMessage_of_boundary hb
      simp [recordedItems, hapi, hself, hb]
    | false =>
      have hnone : (recordedItems E [item]).filter (isUserTurnBoundary E) = [] := by
        rw [← List.length_eq_zero_iff, ← List.countP_eq_length_filter]
        exact recordedItems_countP [item] (by simp [hb])
      rw [hnone, List.filter_cons_of_neg (by simp [hb]), List.nil_append]

theorem modelItems_append (items extra : List RolloutItem) :
    modelItems (items ++ extra) = modelItems items ++ modelItems extra := List.filterMap_append

theorem replayItems_local (h : ∀ item ∈ items, item.isBracket = false) (history : List ResponseItem) :
    (replayItems E history items).filter (isUserTurnBoundary E) =
      history.filter (isUserTurnBoundary E) ++ (modelItems items).filter (isUserTurnBoundary E) := by
  induction items generalizing history with
  | nil => simp [replayItems, modelItems]
  | cons item items ih =>
    have hitem : replayItem E history item = history ++ recordedItems E (modelItems [item]) := by
      have hb := h item (by simp)
      cases item with
      | eventMsg event => cases event <;> first | rfl | cases hb
      | _ => rfl
    have hrest := ih (fun i hi => h i (by simp [hi])) (replayItem E history item)
    rw [← List.singleton_append, modelItems_append, List.filter_append, ← List.append_assoc]
    refine Eq.trans hrest ?_
    rw [hitem, List.filter_append, filter_recordedItems]

theorem BracketedTurn.replayItems (turn : BracketedTurn) (history : List ResponseItem) :
    (Codex.replayItems E history turn.items).filter (isUserTurnBoundary E) =
      history.filter (isUserTurnBoundary E) ++ turn.boundaries E := by
  have hstart : Codex.replayItems E history [.eventMsg (.turnStarted turn.started)] = history := List.append_nil _
  have hend (h : List ResponseItem) : Codex.replayItems E h [.eventMsg (.turnComplete turn.complete)] = h :=
    List.append_nil _
  rw [BracketedTurn.items, ← List.singleton_append, replayItems_append, replayItems_append, hstart, hend,
    replayItems_local turn.bodyLocal]
  rfl

theorem replayItem_rollback (history : List ResponseItem) (numTurns : UInt32) :
    (replayItems E history [.rollback numTurns]).filter (isUserTurnBoundary E) =
      popped (history.filter (isUserTurnBoundary E)) numTurns.toNat := by
  change (MarkedList.dropMarks _ _ numTurns.toNat history).filter _ = _
  rw [MarkedList.filter_dropMarks (not_isContextUpdate_of_boundary E), popped, List.countP_eq_length_filter]

/-- Popping elements that stand for one element each. -/
theorem flatMap_popped {α β : Type*} {f : α → List β} {s} (h : ∀ x ∈ s, (f x).length = 1) (n : Nat) :
    popped (s.flatMap f) n = (popped s n).flatMap f := by
  have hlen (s : List α) (h : ∀ x ∈ s, (f x).length = 1) : (s.flatMap f).length = s.length := by
    induction s with
    | nil => rfl
    | cons x s ih => simp [h x (by simp), ih fun y hy => h y (by simp [hy]), Nat.add_comm]
  have hsplit : s.flatMap f = (popped s n).flatMap f ++ (s.drop (s.length - n)).flatMap f := by
    rw [← List.flatMap_append, popped, List.take_append_drop]
  rw [popped, hlen s h]
  conv_lhs => rw [hsplit]
  have hk : ((popped s n).flatMap f).length = s.length - n := by
    rw [hlen (popped s n) fun x hx => h x (List.mem_of_mem_take hx), length_popped]
  rw [← hk, List.take_left]

theorem BracketedTurn.boundaries_length (hone : (turn.boundaries E).length ≤ 1)
    (hmark : turn.hasBoundary E = true) : (turn.boundaries E).length = 1 := by
  have : turn.boundaries E ≠ [] := by simpa [BracketedTurn.hasBoundary] using hmark
  have := List.length_pos_iff.2 this
  omega

theorem mem_turns_of_push
    (h : StackOp.push turn ∈ blocks.map Block.stackOp) : turn ∈ blocks.flatMap Block.turns := by
  obtain ⟨block, hb, hop⟩ := List.mem_map.1 h
  cases block with
  | turn bracketed =>
    cases hop
    exact List.mem_flatMap.2 ⟨_, hb, by simp [Block.turns]⟩
  | rolledBack numTurns => cases hop

/-- **The boundaries that reconstruction keeps** are those of the marked stack. -/
theorem replayItems_boundaries
    (hone : ∀ turn ∈ blocks.flatMap Block.turns, (turn.boundaries E).length ≤ 1) :
    (replayItems E [] (blocks.flatMap Block.items)).filter (isUserTurnBoundary E) =
      (runMarked (BracketedTurn.hasBoundary E) (blocks.map Block.stackOp)).flatMap (·.boundaries E) := by
  induction blocks using List.reverseRecOn with
  | nil => rfl
  | append_singleton blocks block ih =>
    have hone' : ∀ turn ∈ blocks.flatMap Block.turns, (turn.boundaries E).length ≤ 1 := by
      intro turn hturn
      exact hone turn (by rw [List.flatMap_append]; exact List.mem_append_left _ hturn)
    rw [List.flatMap_append, List.flatMap_singleton, replayItems_append, List.map_append, List.map_singleton,
      runMarked_append_singleton]
    cases block with
    | turn bracketed =>
      rw [Block.items, bracketed.replayItems, ih hone']
      simp only [Block.stackOp, markedStep]
      split
      · simp
      · next hmark =>
        have hnone : bracketed.boundaries E = [] := by simpa [BracketedTurn.hasBoundary] using hmark
        rw [hnone, List.append_nil]
    | rolledBack numTurns =>
      rw [Block.items, replayItem_rollback, ih hone', flatMap_popped]
      · rfl
      · intro turn hturn
        obtain ⟨hmark, hpush⟩ := mem_runMarked hturn
        exact turn.boundaries_length (hone' turn (mem_turns_of_push hpush)) hmark

theorem scan_noBase {s : ReplayState} (hs : s.NoBase) {older : List RolloutItem}
    (h : ∀ item ∈ older, item.isReplacement = false) (newer : List RolloutItem) : (s.scan E newer older).NoBase := by
  induction older generalizing s newer with
  | nil => exact hs
  | cons item older ih =>
    have hobs := ReplayState.observe_noBase (E := E) hs (h item (by simp)) newer
    rw [ReplayState.scan_cons, if_neg (by simp [ReplayState.not_isResolved_of_noBase hobs])]
    exact ih hobs (fun i hi => h i (by simp [hi])) _

theorem reconstruct_history (h : ∀ item ∈ items, item.isCompacted = false) :
    (reconstructHistoryFromRollout E items).history = replayItems E [] items := by
  have hnone : ∀ item ∈ items.reverse, item.isReplacement = false := by
    intro item hi
    cases hrep : item.isReplacement with
    | false => rfl
    | true => cases (h item (List.mem_reverse.1 hi)).symm.trans (isCompacted_of_isReplacement hrep)
  have hbase : (scanRollout E items).baseReplacementHistory = none :=
    (ReplayState.finalizeTaken_noBase (scan_noBase (E := E) (s := { rolloutSuffix := items }) ⟨rfl, rfl⟩ hnone [])).1
  have hsuffix : (scanRollout E items).rolloutSuffix = items := by
    rw [scanRollout, ReplayState.finalizeTaken_rolloutSuffix]
    exact congrArg _ (ReplayState.scan_frame_of_not_replacement (E := E) (s := { rolloutSuffix := items }) hnone [] [] items)
  change (replaySuffix E (scanRollout E items)).history.items = _
  rw [replaySuffix, hbase, hsuffix]
  exact run_items h {}

/-! ## The boundaries of the turns shown -/

theorem startedTurnIds_local (h : ∀ item ∈ items, item.isBracket = false) : startedTurnIds items = [] := by
  refine List.filterMap_eq_nil_iff.2 fun item hi => ?_
  have hb := h item hi
  cases item with
  | eventMsg event => cases event <;> first | rfl | cases hb
  | _ => rfl

theorem startedTurnIds_blocks (blocks : List Block) :
    startedTurnIds (blocks.flatMap Block.items) = (blocks.flatMap Block.turns).map (·.started.turnId) := by
  induction blocks with
  | nil => rfl
  | cons block blocks ih =>
    rw [List.flatMap_cons, List.flatMap_cons, List.map_append, ← ih, startedTurnIds, List.filterMap_append]
    refine congrArg (· ++ _) ?_
    cases block with
    | turn bracketed =>
      have hbody : startedTurnIds bracketed.body = [] := startedTurnIds_local bracketed.bodyLocal
      change bracketed.started.turnId :: startedTurnIds (bracketed.body ++ [_]) = _
      rw [startedTurnIds, List.filterMap_append]
      exact congrArg (bracketed.started.turnId :: · ++ []) hbody
    | rolledBack numTurns => rfl

/-- Turns with distinct ids are found by their ids. -/
theorem filter_turnId {turns : List BracketedTurn} (h : (turns.map (·.started.turnId)).Nodup)
    (hturn : turn ∈ turns) : turns.filter (·.started.turnId == turn.started.turnId) = [turn] := by
  induction turns with
  | nil => cases hturn
  | cons first rest ih =>
    obtain ⟨hfirst, hrest⟩ := List.nodup_cons.1 h
    rcases List.mem_cons.1 hturn with rfl | hin
    · rw [List.filter_cons_of_pos (by simp), List.filter_eq_nil_iff.2]
      intro other hother hid
      exact hfirst (List.mem_map.2 ⟨other, hother, by simpa using hid⟩)
    · rw [List.filter_cons_of_neg, ih hrest hin]
      intro hid
      exact hfirst (List.mem_map.2 ⟨turn, hin, (beq_iff_eq.1 hid).symm⟩)

theorem boundariesOf_turn (h : ((blocks.flatMap Block.turns).map (·.started.turnId)).Nodup)
    (hturn : turn ∈ blocks.flatMap Block.turns) :
    boundariesOf E blocks turn.started.turnId = turn.boundaries E := by
  rw [boundariesOf, filter_turnId h hturn, List.flatMap_singleton]

theorem flatMap_filter_hasBoundary (turns : List BracketedTurn) :
    (turns.filter (·.hasBoundary E)).flatMap (·.boundaries E) = turns.flatMap (·.boundaries E) := by
  induction turns with
  | nil => rfl
  | cons turn turns ih =>
    rw [List.flatMap_cons]
    by_cases hmark : turn.hasBoundary E = true
    · rw [List.filter_cons_of_pos hmark, List.flatMap_cons, ih]
    · have hnone : turn.boundaries E = [] := by simpa [BracketedTurn.hasBoundary] using hmark
      rw [List.filter_cons_of_neg hmark, ih, hnone, List.nil_append]

theorem buildTurns_boundaries (h : PlainTurns E D blocks) :
    (buildTurnsFromRolloutItems E D (blocks.flatMap Block.items)).flatMap (fun turn => boundariesOf E blocks turn.id) =
      ((run (blocks.map Block.stackOp)).filter (·.hasBoundary E)).flatMap (·.boundaries E) := by
  have hdistinct : ((blocks.flatMap Block.turns).map (·.started.turnId)).Nodup := by
    rw [← startedTurnIds_blocks]
    exact h.startedOnce
  calc (buildTurnsFromRolloutItems E D (blocks.flatMap Block.items)).flatMap (fun turn => boundariesOf E blocks turn.id)
      = ((run (blocks.map Block.stackOp)).map (·.started.turnId)).flatMap (boundariesOf E blocks) := by
        rw [← buildTurns_ids h, List.flatMap_map]
    _ = (run (blocks.map Block.stackOp)).flatMap (·.boundaries E) := by
        rw [List.flatMap_map]
        exact List.flatMap_congr fun turn hturn => boundariesOf_turn hdistinct (mem_turns_of_push (mem_run hturn))
    _ = _ := (flatMap_filter_hasBoundary _).symm

theorem length_flatMap_boundaries {turns : List BracketedTurn} (h : ∀ turn ∈ turns, (turn.boundaries E).length = 1) :
    (turns.flatMap (·.boundaries E)).length = turns.length := by
  rw [List.length_flatMap, List.map_congr_left h]
  simp

/-- **When the two readers agree**: as long as no marker takes a turn without a boundary off the clients' list while
a turn with one is left in it. -/
theorem rollbacksAgree_iff {blocks : List Block} (h : PlainTurns E D blocks) :
    RollbacksAgree E D blocks ↔ ¬ Drifts (BracketedTurn.hasBoundary E) (blocks.map Block.stackOp) := by
  have hhistory := (congrArg (List.filter (isUserTurnBoundary E)) (reconstruct_history h.notCompacted)).trans
    (replayItems_boundaries h.oneBoundary)
  have hone {turn : BracketedTurn} (hmark : turn.hasBoundary E = true)
      (hpush : StackOp.push turn ∈ blocks.map Block.stackOp) : (turn.boundaries E).length = 1 :=
    turn.boundaries_length (h.oneBoundary turn (mem_turns_of_push hpush)) hmark
  rw [RollbacksAgree, buildTurns_boundaries h, hhistory, ← agrees_iff]
  constructor
  · intro heq
    rw [run_eq_iff_length, ← length_flatMap_boundaries (E := E), ← length_flatMap_boundaries (E := E), heq]
    · intro turn hturn
      obtain ⟨hin, hmark⟩ := List.mem_filter.1 hturn
      exact hone hmark (mem_run hin)
    · intro turn hturn
      obtain ⟨hmark, hpush⟩ := mem_runMarked hturn
      exact hone hmark hpush
  · intro heq
    rw [heq]

/-- A turn with a message of the user. -/
def messageTurn (turnId text : String) : BracketedTurn :=
  .ofBody turnId [.responseItem (textMessage "user" text), .eventMsg (.userMessage { message := text.toList })] (by simp [RolloutItem.isBracket])

/-- A turn that runs a command of the user's shell. -/
def shellTurn (turnId : String) : BracketedTurn :=
  .ofBody turnId [.responseItem (textMessage "user" "<user_shell_command>ls</user_shell_command>")] (by simp [RolloutItem.isBracket])

theorem rollbacksAgree_messages :
    RollbacksAgree .plain .plain [.turn (shellTurn "t1"), .turn (messageTurn "t2" "hello"), .rolledBack 1] := by
  -- one evaluation for both, which share most of their terms
  obtain ⟨hplain, hlength⟩ :
      PlainTurns .plain .plain [.turn (shellTurn "t1"), .turn (messageTurn "t2" "hello"), .rolledBack 1] ∧
      let ops := [Block.turn (shellTurn "t1"), .turn (messageTurn "t2" "hello"), .rolledBack 1].map Block.stackOp
      (runMarked (BracketedTurn.hasBoundary .plain) ops).length = ((run ops).filter (BracketedTurn.hasBoundary .plain)).length := by
    decide +kernel
  rw [rollbacksAgree_iff hplain, ← agrees_iff, run_eq_iff_length]
  exact hlength

/-- A message and a command, and one turn rolled back: the clients still show
the message, which the model no longer gets. -/
theorem rollbacksAgree_shellTurn_fails :
    PlainTurns .plain .plain [.turn (messageTurn "t1" "hello"), .turn (shellTurn "t2"), .rolledBack 1] ∧
      ¬ RollbacksAgree .plain .plain [.turn (messageTurn "t1" "hello"), .turn (shellTurn "t2"), .rolledBack 1] := by
  unfold RollbacksAgree
  decide +kernel

end Codex
