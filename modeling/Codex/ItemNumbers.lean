/-
The ids the history builder draws, `item-<n>`, stay unique. A rollback takes
the counter back to the number of items that are left, those with ids of their
own included; that no drawn number is among these rests on where the items
stand (`NumberedList`): the number of an item is at most its position, since
every number that is drawn comes with an item at the end, and items that come
late to an earlier turn only move the later ones further back.

Source: app-server-protocol/src/protocol/thread_history.rs.
-/
import Codex.HistoryOps
import Codex.Lib.NumberedList

namespace Codex

open NumberedList

def itemId (n : Nat) : String := "item-" ++ toString n

theorem itemId_injective {i j : Nat} (h : itemId i = itemId j) : i = j := append_toString_injective "item-" h

/-- The item has the id drawn for the number. -/
def ThreadItem.IsNumber (item : ThreadItem) (n : Nat) : Prop := item.id = itemId n

def IsDrawn (id : String) : Prop := ∃ n, id = itemId n

/-- The ids that an operation brings to the items. -/
def HistoryOp.suppliedIds : HistoryOp → List String
  | .push item | .upsertCurrent item | .upsertIn _ item => [item.id]
  | .reviewMode _ itemId _ => itemId.toList
  | _ => []

/-- The ids that a record brings, or that are drawn elsewhere for a prompt without one. -/
def RolloutItem.suppliedIds (E : Externals) (D : ItemDisplay) (rolloutIndex : Nat) (item : RolloutItem) : List String :=
  (item.historyOp E D rolloutIndex).suppliedIds

def RolloutItem.namesReviewItem : RolloutItem → Bool
  | .eventMsg (.enteredReviewMode (some _) itemId _) | .eventMsg (.exitedReviewMode (some _) itemId _) => itemId.isSome
  | _ => true

def HistoryOp.namesReviewItem : HistoryOp → Bool
  | .reviewMode (some _) itemId _ => itemId.isSome
  | _ => true

theorem HistoryOp.namesReviewItem_upsertNamed (turnId : String) (item : ThreadItem) :
    (HistoryOp.upsertNamed turnId item).namesReviewItem = true := by
  unfold upsertNamed
  split <;> rfl

theorem TurnItem.historyOp_namesReviewItem (D : ItemDisplay) (turnId : String) (item : TurnItem) :
    (item.historyOp D turnId).namesReviewItem = true := by
  cases item with
  | enteredReviewMode | exitedReviewMode => rfl
  | _ =>
    simp only [TurnItem.historyOp]
    cases materializedItem D _ <;> rfl

theorem RolloutItem.historyOp_namesReviewItem (E : Externals) (D : ItemDisplay) (i : Nat) {item : RolloutItem}
    (h : item.namesReviewItem = true) : (item.historyOp E D i).namesReviewItem = true := by
  cases item with
  | eventMsg event =>
    show (event.historyOp D).namesReviewItem = true
    cases event with
    | agentMessage | agentReasoning | agentReasoningRawContent =>
      simp only [EventMsg.historyOp]
      split <;> rfl
    | guardianAssessment payload =>
      simp only [EventMsg.historyOp]
      cases guardianItem D payload with
      | none => rfl
      | some item => exact HistoryOp.namesReviewItem_upsertNamed ..
    | applyPatchApprovalRequest | patchApplyBegin | patchApplyEnd | dynamicToolCallRequest
    | dynamicToolCallResponse => exact HistoryOp.namesReviewItem_upsertNamed ..
    | itemStarted turnId item | itemCompleted turnId item => exact TurnItem.historyOp_namesReviewItem D turnId item
    | enteredReviewMode turnId | exitedReviewMode turnId =>
      cases turnId with
      | none => rfl
      | some turnId => exact h
    | _ => rfl
  | responseItem item =>
    cases item with
    | message id role content phase metadata =>
      simp only [RolloutItem.historyOp]
      split
      · rfl
      · cases parseHookPromptFragments E content <;> rfl
    | _ => rfl
  | _ => rfl

/-! ## The items of a turn -/

/-- Either the item takes the place of the one with its id, or it goes to the end. -/
theorem upsertTurnItem_cases (items : List ThreadItem) (item : ThreadItem) :
    (∃ before existing after, items = before ++ existing :: after ∧ existing.id = item.id ∧
      upsertTurnItem items item = before ++ item :: after) ∨
    (∀ existing ∈ items, existing.id ≠ item.id) ∧ upsertTurnItem items item = items ++ [item] := by
  unfold upsertTurnItem
  cases hfind : items.findIdx? (·.id == item.id) with
  | none =>
    refine .inr ⟨fun existing hmem heq => ?_, rfl⟩
    have hnone := List.findIdx?_eq_none_iff.1 hfind existing hmem
    rw [heq, beq_self_eq_true] at hnone
    cases hnone
  | some index =>
    obtain ⟨hlt, hat, -⟩ := List.findIdx?_eq_some_iff_getElem.1 hfind
    refine .inl ⟨items.take index, items[index], items.drop (index + 1), ?_, eq_of_beq hat, ?_⟩
    · rw [List.cons_getElem_drop_succ, List.take_append_drop]
    · exact List.set_eq_take_append_cons_drop.trans (if_pos hlt)

variable {next : Nat}

variable {item : ThreadItem} {turn : PendingTurn}

theorem Numbered.upsert {xs items ys} (h : Numbered ThreadItem.IsNumber next (xs ++ items ++ ys))
    (hid : ¬ IsDrawn item.id) :
    Numbered ThreadItem.IsNumber next (xs ++ upsertTurnItem items item ++ ys) := by
  have hnot : ∀ i, ¬ item.IsNumber i := fun i hi => hid ⟨i, hi⟩
  rcases upsertTurnItem_cases items item with ⟨before, existing, after, rfl, hsame, heq⟩ | ⟨-, heq⟩
  · rw [heq]
    have h : Numbered ThreadItem.IsNumber next ((xs ++ before) ++ existing :: (after ++ ys)) := by
      simpa only [List.append_assoc, List.cons_append] using h
    have hreplaced := h.replace (b := item) fun i => by
      unfold ThreadItem.IsNumber
      rw [hsame]
    simpa only [List.append_assoc, List.cons_append] using hreplaced
  · rw [heq]
    have hinserted := h.insert hnot
    simpa only [List.append_assoc, List.cons_append, List.nil_append] using hinserted

namespace ThreadHistoryBuilder

variable {E : Externals} {D : ItemDisplay} {b : ThreadHistoryBuilder}

/-- The items of the turns, finished and open. -/
def allItems (b : ThreadHistoryBuilder) : List ThreadItem := b.allTurns.flatMap fun turn => turn.items

/-- The drawn ids and the counter are in step. -/
def ItemsNumbered (b : ThreadHistoryBuilder) : Prop := Numbered ThreadItem.IsNumber b.nextItemIndex b.allItems

theorem allItems_open {turn : PendingTurn} (h : b.currentTurn = some turn) :
    b.allItems = b.turns.flatMap (fun turn => turn.items) ++ turn.items := by
  unfold allItems
  rw [allTurns_open h, List.flatMap_append, List.flatMap_singleton]

theorem allItems_none (h : b.currentTurn = none) : b.allItems = b.turns.flatMap fun turn => turn.items := by
  unfold allItems
  rw [allTurns_none h]

/-- What the invariant is about is the same in both. -/
def SameItems (b b' : ThreadHistoryBuilder) : Prop := b'.allItems = b.allItems ∧ b'.nextItemIndex = b.nextItemIndex

theorem ItemsNumbered.of_same {b'} (h : b.ItemsNumbered) (hsame : b.SameItems b') : b'.ItemsNumbered := by
  unfold ItemsNumbered
  rw [hsame.1, hsame.2]
  exact h

theorem SameItems.trans {b' b''} (h : b.SameItems b') (h' : b'.SameItems b'') : b.SameItems b'' :=
  ⟨h'.1.trans h.1, h'.2.trans h.2⟩

theorem finishCurrentTurn_same (b : ThreadHistoryBuilder) :
    b.SameItems b.finishCurrentTurn ∧ b.finishCurrentTurn.currentTurn = none := by
  cases hcur : b.currentTurn with
  | none =>
    rw [finishCurrentTurn_none hcur]
    exact ⟨⟨rfl, rfl⟩, hcur⟩
  | some turn =>
    unfold SameItems
    rw [allItems_open hcur]
    unfold finishCurrentTurn
    rw [hcur]
    dsimp only
    split
    next hdropped =>
      refine ⟨⟨?_, rfl⟩, rfl⟩
      simp only [Bool.and_eq_true, List.isEmpty_iff] at hdropped
      rw [allItems_none rfl, hdropped.1.1, List.append_nil]
    next =>
      refine ⟨⟨?_, rfl⟩, rfl⟩
      rw [allItems_none rfl, List.flatMap_append, List.flatMap_singleton]

theorem openTurn_same (h : b.currentTurn = none) (hitems : turn.items = []) :
    b.SameItems (b.openTurn turn) := by
  refine ⟨?_, rfl⟩
  rw [allItems_none h, allItems_open (openTurn_currentTurn b turn), openTurn_turns, hitems, List.append_nil]

theorem ensureTurn_same (b : ThreadHistoryBuilder) : b.SameItems b.ensureTurn ∧ b.ensureTurn.currentTurn.isSome = true := by
  unfold ensureTurn
  split
  next h => exact ⟨openTurn_same (Option.isNone_iff_eq_none.1 h) rfl, rfl⟩
  next h =>
    refine ⟨⟨rfl, rfl⟩, ?_⟩
    exact Option.isSome_iff_ne_none.2 fun hnone => h (by rw [hnone]; rfl)

theorem changeItem_items (h : b.currentTurn = some turn) (f : Turn → Turn) (item : ThreadItem) :
    (b.changeItemInCurrentTurn f item).allItems = b.turns.flatMap (fun turn => turn.items) ++ (f turn.toTurn).items := by
  rw [changeItemInCurrentTurn_open h]
  exact @allItems_open _ (turn.update f) rfl

theorem changeItem_nextItemIndex (b : ThreadHistoryBuilder) (f : Turn → Turn) (item : ThreadItem) :
    (b.changeItemInCurrentTurn f item).nextItemIndex = b.nextItemIndex := by
  unfold changeItemInCurrentTurn
  cases b.currentTurn <;> rfl

/-- An edit of the open turn that leaves its items. -/
theorem changeCurrentTurn_same {f : Turn → Turn} (hf : ∀ turn, (f turn).items = turn.items) :
    b.SameItems (b.changeCurrentTurn f) := by
  cases hcur : b.currentTurn with
  | none =>
    rw [changeCurrentTurn_none hcur]
    exact ⟨rfl, rfl⟩
  | some turn =>
    rw [changeCurrentTurn_open hcur]
    refine ⟨?_, rfl⟩
    rw [allItems_open hcur, ← hf turn.toTurn]
    exact @allItems_open _ (turn.update f) rfl

/-! ## The operations -/

/-- The number of an item that goes to the end of the open turn is the counter's. -/
theorem ItemsNumbered.pushNext (h : b.ItemsNumbered) (hid : item.id = b.nextItemId) :
    (b.takeItemId.pushItemInCurrentTurn item).ItemsNumbered := by
  obtain ⟨hsame, hopen⟩ := ensureTurn_same b.takeItemId
  obtain ⟨turn, hcur⟩ := Option.isSome_iff_exists.1 hopen
  have hitems : (b.takeItemId.pushItemInCurrentTurn item).allItems = b.allItems ++ [item] := by
    unfold pushItemInCurrentTurn
    rw [changeItem_items hcur, ← show b.takeItemId.allItems = b.allItems from rfl, ← hsame.1, allItems_open hcur,
      List.append_assoc]
    rfl
  have hnext : (b.takeItemId.pushItemInCurrentTurn item).nextItemIndex = b.nextItemIndex + 1 :=
    (changeItem_nextItemIndex ..).trans hsame.2
  unfold ItemsNumbered
  rw [hitems, hnext]
  exact h.push fun i hi => itemId_injective (hi.symm.trans hid)

theorem ItemsNumbered.push (h : b.ItemsNumbered) (hid : ¬ IsDrawn item.id) :
    (b.pushItemInCurrentTurn item).ItemsNumbered := by
  obtain ⟨hsame, hopen⟩ := ensureTurn_same b
  obtain ⟨turn, hcur⟩ := Option.isSome_iff_exists.1 hopen
  have hnumbered := h.of_same hsame
  unfold ItemsNumbered at hnumbered ⊢
  unfold pushItemInCurrentTurn
  rw [allItems_open hcur, ← List.append_nil turn.items, ← List.append_assoc] at hnumbered
  rw [changeItem_items hcur, changeItem_nextItemIndex]
  have hinserted := hnumbered.insert (a := item) fun i hi => hid ⟨i, hi⟩
  rwa [List.append_assoc] at hinserted

theorem ItemsNumbered.upsertOpen (h : b.ItemsNumbered) (hcur : b.currentTurn = some turn)
    (hid : ¬ IsDrawn item.id) :
    (b.changeItemInCurrentTurn (·.upsertItem item) item).ItemsNumbered := by
  unfold ItemsNumbered at h ⊢
  rw [allItems_open hcur, ← List.append_nil (_ ++ _)] at h
  rw [changeItem_items hcur, changeItem_nextItemIndex, ← List.append_nil (_ ++ _)]
  exact Numbered.upsert h hid

theorem ItemsNumbered.upsertCurrent (h : b.ItemsNumbered) (hid : ¬ IsDrawn item.id) :
    (b.upsertItemInCurrentTurn item).ItemsNumbered := by
  obtain ⟨hsame, hopen⟩ := ensureTurn_same b
  obtain ⟨turn, hcur⟩ := Option.isSome_iff_exists.1 hopen
  exact (h.of_same hsame).upsertOpen hcur hid

theorem ItemsNumbered.upsertNext (h : b.ItemsNumbered) (hid : item.id = b.nextItemId) :
    (b.takeItemId.upsertItemInCurrentTurn item).ItemsNumbered := by
  obtain ⟨hsame, hopen⟩ := ensureTurn_same b.takeItemId
  obtain ⟨turn, hcur⟩ := Option.isSome_iff_exists.1 hopen
  have hnone : ∀ existing ∈ turn.items, existing.id ≠ item.id := by
    intro existing hmem heq
    refine absurd (h.below existing ?_ b.nextItemIndex (heq.trans hid)) (Nat.lt_irrefl _)
    rw [← show b.takeItemId.allItems = b.allItems from rfl, ← hsame.1, allItems_open hcur]
    exact List.mem_append_right _ hmem
  have hupsert : upsertTurnItem turn.items item = turn.items ++ [item] := by
    rcases upsertTurnItem_cases turn.items item with ⟨before, existing, after, hitems, heq, -⟩ | ⟨-, heq⟩
    · exact absurd heq (hnone existing (by rw [hitems]; exact List.mem_append_right _ List.mem_cons_self))
    · exact heq
  have hpush := h.pushNext hid
  unfold ItemsNumbered at hpush ⊢
  unfold pushItemInCurrentTurn at hpush
  unfold upsertItemInCurrentTurn
  rw [changeItem_items hcur, changeItem_nextItemIndex] at hpush ⊢
  show Numbered _ _ (_ ++ upsertTurnItem turn.items item)
  rw [hupsert]
  exact hpush

theorem updateTurn_cases (turnId : String) (f : Turn → Turn) (turns : List Turn) :
    (∃ below turn above, turns = below ++ turn :: above ∧ updateTurn turnId f turns = below ++ f turn :: above) ∨
      updateTurn turnId f turns = turns := by
  induction turns with
  | nil => exact .inr rfl
  | cons turn turns ih =>
    unfold updateTurn
    split
    · exact .inl ⟨[], turn, turns, rfl, rfl⟩
    · rcases ih with ⟨below, found, above, heq, hupdated⟩ | hsame
      · exact .inl ⟨turn :: below, found, above, by rw [heq]; rfl, by rw [hupdated]; rfl⟩
      · exact .inr (by rw [hsame])

theorem allItems_setTurns (b : ThreadHistoryBuilder) (turns : List Turn) :
    (b.setTurns turns).allItems =
      turns.flatMap (fun turn => turn.items) ++ (b.currentTurn.map (·.toTurn)).toList.flatMap fun turn => turn.items :=
  List.flatMap_append

theorem allItems_eq (b : ThreadHistoryBuilder) :
    b.allItems =
      b.turns.flatMap (fun turn => turn.items) ++ (b.currentTurn.map (·.toTurn)).toList.flatMap fun turn => turn.items :=
  List.flatMap_append

/-- An item that comes late to an earlier turn. -/
theorem ItemsNumbered.upsertFinished (h : b.ItemsNumbered) {turnId} (hid : ¬ IsDrawn item.id) :
    (b.setTurns (updateTurn turnId (·.upsertItem item) b.turns)).ItemsNumbered := by
  unfold ItemsNumbered at h ⊢
  rw [allItems_setTurns]
  rw [allItems_eq] at h
  rcases updateTurn_cases turnId (·.upsertItem item) b.turns with
    ⟨below, turn, above, heq, hupdated⟩ | hsame
  · rw [hupdated]
    rw [heq] at h
    simp only [List.flatMap_append, List.flatMap_cons, List.append_assoc] at h ⊢
    rw [← List.append_assoc] at h ⊢
    exact Numbered.upsert h hid
  · rw [hsame]
    exact h

theorem ItemsNumbered.upsertIn (h : b.ItemsNumbered) {turnId} (hid : ¬ IsDrawn item.id) :
    (b.upsertItemInTurnId turnId item).ItemsNumbered := by
  unfold upsertItemInTurnId
  split
  next hmatches =>
    obtain ⟨turn, hcur, -⟩ := (Option.any_eq_true ..).1 hmatches
    exact h.upsertOpen hcur hid
  next =>
    split
    · exact h.upsertFinished hid
    · exact h

theorem ItemsNumbered.reviewMode (h : b.ItemsNumbered) {turnId}
    (hid : ¬ IsDrawn item.id) : (b.upsertReviewModeItem turnId item).ItemsNumbered := by
  unfold upsertReviewModeItem
  cases turnId with
  | none => exact h.upsertCurrent hid
  | some turnId =>
    dsimp only
    split
    · obtain ⟨hsame, hnone⟩ := finishCurrentTurn_same b
      exact ((h.of_same hsame).of_same (openTurn_same hnone rfl)).upsertIn hid
    · exact h.upsertIn hid

theorem extendReasoning_id {summary content last}
    (h : extendReasoning summary content last = some item) : ∃ existing, last = some existing ∧ existing.id = item.id := by
  unfold extendReasoning at h
  split at h
  · cases h
    exact ⟨_, rfl, rfl⟩
  · cases h

theorem ItemsNumbered.reasoning (h : b.ItemsNumbered) (summary content : List String) :
    (b.appendReasoning summary content).ItemsNumbered := by
  obtain ⟨hsame, hopen⟩ := ensureTurn_same b
  obtain ⟨turn, hcur⟩ := Option.isSome_iff_exists.1 hopen
  have h := h.of_same hsame
  unfold appendReasoning
  dsimp only
  split
  next item hextended =>
    obtain ⟨existing, hlast, hid⟩ := extendReasoning_id hextended
    rw [hcur] at hlast
    obtain ⟨items, hitems⟩ := List.getLast?_eq_some_iff.1 hlast
    have hedit : (b.ensureTurn.changeItemInCurrentTurn (Turn.replaceLastItem · item) item).allItems =
        (b.ensureTurn.turns.flatMap (fun turn => turn.items) ++ items) ++ [item] := by
      rw [changeItem_items hcur]
      show _ ++ (turn.items.dropLast ++ [item]) = _
      rw [hitems, List.dropLast_concat, List.append_assoc]
    unfold ItemsNumbered at h ⊢
    rw [allItems_open hcur, hitems, ← List.append_assoc] at h
    rw [hedit, changeItem_nextItemIndex]
    exact h.replace fun i => by
      unfold ThreadItem.IsNumber
      rw [hid]
  next => exact h.pushNext rfl

theorem changeFinishedTurn_same {f : Turn → Turn} (hf : ∀ turn, (f turn).items = turn.items) (turnId : String) :
    b.SameItems (b.changeFinishedTurn turnId f) := by
  unfold changeFinishedTurn
  split
  next =>
    refine ⟨?_, rfl⟩
    show (b.setTurns (updateTurn turnId f b.turns)).allItems = _
    rw [allItems_setTurns, allItems_eq]
    rcases updateTurn_cases turnId f b.turns with ⟨below, turn, above, heq, hupdated⟩ | hsame
    · rw [hupdated, heq]
      simp only [List.flatMap_append, List.flatMap_cons, hf]
    · rw [hsame]
  next => exact ⟨rfl, rfl⟩

theorem fail_items (turn : Turn) (payload : ErrorEvent) : (turn.fail payload).items = turn.items := rfl

theorem abort_items (turn : Turn) (payload : TurnAbortedEvent) : (turn.abort payload).items = turn.items := rfl

theorem markCompleted_items (turn : Turn) (payload : TurnCompleteEvent) : (turn.markCompleted payload).items = turn.items := rfl

theorem handleError_same (b : ThreadHistoryBuilder) (payload : ErrorEvent) : b.SameItems (b.handleError payload) := by
  unfold handleError
  split
  · exact changeCurrentTurn_same fun turn => fail_items turn payload
  · exact ⟨rfl, rfl⟩

theorem handleTurnAborted_same (b : ThreadHistoryBuilder) (payload : TurnAbortedEvent) :
    b.SameItems (b.handleTurnAborted payload) := by
  unfold handleTurnAborted
  split
  next =>
    split
    · exact changeCurrentTurn_same fun turn => abort_items turn payload
    split
    · exact changeFinishedTurn_same (fun turn => abort_items turn payload) _
    · exact changeCurrentTurn_same fun turn => abort_items turn payload
  next => exact changeCurrentTurn_same fun turn => abort_items turn payload

theorem handleTurnComplete_same (b : ThreadHistoryBuilder) (payload : TurnCompleteEvent) :
    b.SameItems (b.handleTurnComplete payload) := by
  have hfinish : b.SameItems (b.changeCurrentTurn (·.markCompleted payload)).finishCurrentTurn :=
    (changeCurrentTurn_same fun turn => markCompleted_items turn payload).trans (finishCurrentTurn_same _).1
  unfold handleTurnComplete
  split
  · exact hfinish
  split
  · exact changeFinishedTurn_same (fun turn => markCompleted_items turn payload) _
  · exact hfinish

theorem handleCompacted_same (b : ThreadHistoryBuilder) : b.SameItems b.handleCompacted := by
  obtain ⟨hsame, hopen⟩ := ensureTurn_same b
  obtain ⟨turn, hcur⟩ := Option.isSome_iff_exists.1 hopen
  refine hsame.trans ⟨?_, rfl⟩
  rw [allItems_open hcur]
  refine @allItems_open _ { turn with sawCompaction := true } ?_
  unfold handleCompacted
  dsimp only
  rw [hcur]
  rfl

theorem sum_length_eq (turns : List Turn) :
    (turns.map (·.items.length)).sum = (turns.flatMap fun turn => turn.items).length := (List.length_flatMap ..).symm

theorem ItemsNumbered.rollback (h : b.ItemsNumbered) (numTurns : UInt32) : (b.handleThreadRollback numTurns).ItemsNumbered := by
  obtain ⟨hsame, hnone⟩ := finishCurrentTurn_same b
  have h := h.of_same hsame
  unfold ItemsNumbered at h
  rw [allItems_none hnone] at h
  have hkept : ∃ k, (b.handleThreadRollback numTurns).turns = b.finishCurrentTurn.turns.take k := by
    show ∃ k, (if numTurns.toNat ≥ b.finishCurrentTurn.turns.length then [] else b.finishCurrentTurn.turns.take _) = _
    split
    · exact ⟨0, rfl⟩
    · exact ⟨_, rfl⟩
  have hopen : (b.handleThreadRollback numTurns).currentTurn = none := hnone
  obtain ⟨k, hk⟩ := hkept
  have hnext : (b.handleThreadRollback numTurns).nextItemIndex =
      ((b.handleThreadRollback numTurns).turns.map (·.items.length)).sum + 1 := rfl
  unfold ItemsNumbered
  rw [allItems_none hopen, hnext, sum_length_eq, hk]
  rw [← List.take_append_drop k b.finishCurrentTurn.turns, List.flatMap_append] at h
  exact h.cut

/-- **Every operation keeps the drawn ids and the counter in step.** -/
theorem ItemsNumbered.run (h : b.ItemsNumbered) {op : HistoryOp} (hids : ∀ id ∈ op.suppliedIds, ¬ IsDrawn id)
    (hreview : op.namesReviewItem = true) : (op.run b).ItemsNumbered := by
  cases op with
  | skip => exact h
  | push item => exact h.push (hids _ List.mem_cons_self)
  | pushNext form => exact h.pushNext (form.2 _)
  | userMessage form =>
    unfold HistoryOp.run
    dsimp only
    split
    · exact (h.of_same (finishCurrentTurn_same b).1).pushNext (form.2 _)
    · exact h.pushNext (form.2 _)
  | reasoning summary content => exact h.reasoning summary content
  | upsertCurrent item => exact h.upsertCurrent (hids _ List.mem_cons_self)
  | upsertIn turnId item => exact h.upsertIn (hids _ List.mem_cons_self)
  | reviewMode turnId itemId form =>
    cases itemId with
    | some itemId =>
      refine ItemsNumbered.reviewMode h ?_
      rw [form.2]
      exact hids itemId List.mem_cons_self
    | none =>
      cases turnId with
      | none => exact h.upsertNext (form.2 _)
      | some turnId => cases hreview
  | error payload => exact h.of_same (handleError_same b payload)
  | aborted payload => exact h.of_same (handleTurnAborted_same b payload)
  | started payload =>
    obtain ⟨hsame, hnone⟩ := finishCurrentTurn_same b
    exact (h.of_same hsame).of_same (openTurn_same hnone rfl)
  | complete payload => exact h.of_same (handleTurnComplete_same b payload)
  | compacted => exact h.of_same (handleCompacted_same b)
  | rollback numTurns => exact h.rollback numTurns

theorem itemsNumbered_handleRolloutItem (h : b.ItemsNumbered) {item : RolloutItem}
    (hids : ∀ id ∈ item.suppliedIds E D b.nextRolloutIndex, ¬ IsDrawn id) (hreview : item.namesReviewItem = true) :
    (b.handleRolloutItem E D item).ItemsNumbered := by
  rw [handleRolloutItem_eq]
  have hnext : b.nextRolloutItem.ItemsNumbered := h
  exact hnext.run hids (RolloutItem.historyOp_namesReviewItem E D _ hreview)

theorem itemsNumbered_run (h : b.ItemsNumbered) {items}
    (hids : ∀ item ∈ items, ∀ i, ∀ id ∈ item.suppliedIds E D i, ¬ IsDrawn id)
    (hreview : ∀ item ∈ items, item.namesReviewItem = true) : (b.run E D items).ItemsNumbered := by
  induction items generalizing b with
  | nil => exact h
  | cons item items ih =>
    obtain ⟨hid, hids⟩ := List.forall_mem_cons.1 hids
    obtain ⟨hname, hreview⟩ := List.forall_mem_cons.1 hreview
    exact ih (itemsNumbered_handleRolloutItem h (hid _) hname) hids hreview

end ThreadHistoryBuilder

/-! ## The drawn ids -/

/-- **No two items of a history ever have the same drawn id**, as long as no record brings one of these ids and
every review-mode event that names a turn brings an id. -/
theorem drawn_ids_unique (E : Externals) (D : ItemDisplay) (items : List RolloutItem)
    (hids : ∀ item ∈ items, ∀ i, ∀ id ∈ item.suppliedIds E D i, ¬ IsDrawn id)
    (hreview : ∀ item ∈ items, item.namesReviewItem = true) :
    ∀ before, before <+: items → (({} : ThreadHistoryBuilder).run E D before).allItems.Pairwise
      fun item other => IsDrawn item.id → item.id ≠ other.id := by
  intro before hbefore
  have hstart : ({} : ThreadHistoryBuilder).ItemsNumbered := numbered_nil
  have hnumbered : (({} : ThreadHistoryBuilder).run E D before).ItemsNumbered :=
    ThreadHistoryBuilder.itemsNumbered_run hstart (fun item hmem => hids item (hbefore.subset hmem))
      fun item hmem => hreview item (hbefore.subset hmem)
  refine hnumbered.unique.imp fun {item other} hnot hdrawn heq => ?_
  obtain ⟨n, hn⟩ := hdrawn
  exact hnot n hn (heq.symm.trans hn)

theorem not_isDrawn {id} (h : ¬ "item-".toList <+: id.toList) : ¬ IsDrawn id := by
  rintro ⟨n, rfl⟩
  refine h ?_
  unfold itemId
  rw [String.toList_append]
  exact List.prefix_append ..

/-- Two turns, the second with a late view of an image and rolled back, and one turn more. -/
def renumberedTurns : List RolloutItem :=
  [.eventMsg (.turnStarted { turnId := "t1" }), .eventMsg (.userMessage { message := "one".toList }),
    .eventMsg (.viewImageToolCall "call-1" "a.png"), .eventMsg (.turnStarted { turnId := "t2" }),
    .eventMsg (.userMessage { message := "two".toList }), .eventMsg (.threadRolledBack 1),
    .eventMsg (.turnStarted { turnId := "t3" }), .eventMsg (.userMessage { message := "three".toList })]

theorem drawn_ids_unique_renumberedTurns :
    (({} : ThreadHistoryBuilder).run .plain .plain renumberedTurns).allItems.map (·.id) = ["item-1", "call-1", "item-3"] ∧
    (({} : ThreadHistoryBuilder).run .plain .plain renumberedTurns).allItems.Pairwise
      fun item other => IsDrawn item.id → item.id ≠ other.id := by
  refine ⟨by decide, drawn_ids_unique .plain .plain renumberedTurns ?_ (by decide) _ List.prefix_rfl⟩
  have hids : ∀ item ∈ renumberedTurns, ∀ i, item.suppliedIds .plain .plain i ⊆ ["call-1"] := by
    unfold renumberedTurns
    simp [RolloutItem.suppliedIds, RolloutItem.historyOp, EventMsg.historyOp, HistoryOp.suppliedIds, ThreadItem.id]
  intro item hmem i id hid
  obtain rfl := List.mem_singleton.1 (hids item hmem i hid)
  exact not_isDrawn (by decide)

end Codex
