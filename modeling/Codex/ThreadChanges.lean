/-
Following a thread through its change sets
(`app-server-protocol/src/protocol/thread_history.rs`). The builder hands out
what a batch of records changed; an accumulator merges the changes of the
records, so that an item or a turn is named once, with its last value, and not
at all when the batch rolled its turn back.

A follower, who knows only the change sets, may apply a merged one for those of the
records (`apply_push`).
-/
import Codex.HistoryOps
import Codex.Lib.KeyedList

namespace Codex

open KeyedList

def ThreadHistoryItemChange.key (change : ThreadHistoryItemChange) : String × String := (change.turnId, change.item.id)

/-! ## The accumulator -/

/-- `ThreadHistoryChangeAccumulator`; each slot table is a vector of changes with its map of indexes. -/
structure ThreadHistoryChangeAccumulator where
  changedItems : SlotTable (String × String) ThreadHistoryItemChange := {}
  changedTurns : SlotTable String ThreadHistoryTurnChange := {}
  removedTurnIds : List String := []
  removedTurnIndexes : List (String × Nat) := []

namespace ThreadHistoryChangeAccumulator

def pushItemChange (a : ThreadHistoryChangeAccumulator) (change : ThreadHistoryItemChange) :
    ThreadHistoryChangeAccumulator :=
  { a with changedItems := a.changedItems.put (·.key) change }

def pushTurnChange (a : ThreadHistoryChangeAccumulator) (change : ThreadHistoryTurnChange) :
    ThreadHistoryChangeAccumulator :=
  { a with changedTurns := a.changedTurns.put (·.turnId) change }

/-- The first half of `push_removed_turn_id`. -/
def noteRemovedTurnId (a : ThreadHistoryChangeAccumulator) (turnId : String) : ThreadHistoryChangeAccumulator :=
  if (a.removedTurnIndexes.lookup turnId).isSome then a
  else
    { a with
      removedTurnIndexes := (turnId, a.removedTurnIds.length) :: a.removedTurnIndexes
      removedTurnIds := a.removedTurnIds ++ [turnId] }

def pushRemovedTurnId (a : ThreadHistoryChangeAccumulator) (turnId : String) : ThreadHistoryChangeAccumulator :=
  let a := a.noteRemovedTurnId turnId
  let removedItemKeys := (a.changedItems.indexes.map (·.1)).filter (·.1 == turnId)
  { a with
    changedTurns := a.changedTurns.erase turnId
    changedItems := removedItemKeys.foldl SlotTable.erase a.changedItems }

def push (a : ThreadHistoryChangeAccumulator) (changes : ThreadHistoryChangeSet) : ThreadHistoryChangeAccumulator :=
  let a := changes.removedTurnIds.foldl pushRemovedTurnId a
  let a := changes.changedItems.foldl pushItemChange a
  changes.changedTurns.foldl pushTurnChange a

def finish (a : ThreadHistoryChangeAccumulator) : ThreadHistoryChangeSet :=
  { changedItems := a.changedItems.values, changedTurns := a.changedTurns.values, removedTurnIds := a.removedTurnIds }

end ThreadHistoryChangeAccumulator

/-! ## Collecting changes -/

namespace ThreadHistoryBuilder

section
variable (E : Externals) (D : ItemDisplay)

def withChanges (b : ThreadHistoryBuilder) (changes : Option ThreadHistoryChangeSet) : ThreadHistoryBuilder :=
  { b with activeChangeSet := changes }

def collectChanges (b : ThreadHistoryBuilder) (handle : ThreadHistoryBuilder → ThreadHistoryBuilder) :
    ThreadHistoryBuilder × ThreadHistoryChangeSet :=
  let b := handle (b.withChanges (some {}))
  (b.withChanges none, b.activeChangeSet.getD {})

def handleRolloutItemWithChanges (b : ThreadHistoryBuilder) (item : RolloutItem) :
    ThreadHistoryBuilder × ThreadHistoryChangeSet :=
  b.collectChanges (·.handleRolloutItem E D item)

/-- The loop of `handle_rollout_items_with_changes`. -/
def accumulateChanges (s : ThreadHistoryBuilder × ThreadHistoryChangeAccumulator) (items : List RolloutItem) :
    ThreadHistoryBuilder × ThreadHistoryChangeAccumulator :=
  items.foldl (fun s item =>
    let (b, changes) := s.1.handleRolloutItemWithChanges E D item
    (b, s.2.push changes)) s

def handleRolloutItemsWithChanges (b : ThreadHistoryBuilder) (items : List RolloutItem) :
    ThreadHistoryBuilder × ThreadHistoryChangeSet :=
  let (b, accumulator) := accumulateChanges E D (b, {}) items
  (b, accumulator.finish)

end

end ThreadHistoryBuilder

/-! ## Followers -/

/-- What a client keeps of a thread it follows: the turns, and the items with the turns they belong to. -/
structure ThreadFollower where
  turns : List ThreadHistoryTurnChange := []
  items : List ThreadHistoryItemChange := []

namespace ThreadFollower

def removeTurns (F : ThreadFollower) (turnIds : List String) : ThreadFollower :=
  { turns := F.turns.filter (·.turnId ∉ turnIds), items := F.items.filter (·.turnId ∉ turnIds) }

def upsertTurn (F : ThreadFollower) (change : ThreadHistoryTurnChange) : ThreadFollower :=
  { F with turns := upsert (·.turnId) F.turns change }

def upsertItem (F : ThreadFollower) (change : ThreadHistoryItemChange) : ThreadFollower :=
  { F with items := upsert (·.key) F.items change }

/-- Deletes the removed turns with their items, then inserts or replaces what changed. -/
def apply (F : ThreadFollower) (changes : ThreadHistoryChangeSet) : ThreadFollower :=
  { turns := upsertAll (·.turnId) (F.removeTurns changes.removedTurnIds).turns changes.changedTurns
    items := upsertAll (·.key) (F.removeTurns changes.removedTurnIds).items changes.changedItems }

def itemsOf (F : ThreadFollower) (turnId : String) : List ThreadItem :=
  (F.items.filter (·.turnId == turnId)).map (·.item)

/-- The follower after the batches, with the builder that handed out their changes. -/
def follow (E : Externals) (D : ItemDisplay) (batches : List (List RolloutItem)) : ThreadHistoryBuilder × ThreadFollower :=
  batches.foldl (fun s batch =>
    let (b, changes) := s.1.handleRolloutItemsWithChanges E D batch
    (b, s.2.apply changes)) ({}, {})

end ThreadFollower

/-! ## Merged change sets -/

namespace ThreadHistoryChangeAccumulator

/-- The indexes of the accumulator find what it holds. -/
structure Valid (a : ThreadHistoryChangeAccumulator) : Prop where
  items : a.changedItems.Valid (·.key)
  turns : a.changedTurns.Valid (·.turnId)
  removed : ∀ turnId, (a.removedTurnIndexes.lookup turnId).isSome = true ↔ turnId ∈ a.removedTurnIds

theorem valid_empty : ({} : ThreadHistoryChangeAccumulator).Valid :=
  { items := SlotTable.valid_empty, turns := SlotTable.valid_empty, removed := fun _ => by simp }

variable {a : ThreadHistoryChangeAccumulator} (F : ThreadFollower)

theorem foldl_pushItemChange (a : ThreadHistoryChangeAccumulator) (changes : List ThreadHistoryItemChange) :
    changes.foldl pushItemChange a = { a with changedItems := changes.foldl (SlotTable.put (·.key)) a.changedItems } := by
  induction changes generalizing a with
  | nil => rfl
  | cons change changes ih => exact ih (a.pushItemChange change)

theorem foldl_pushTurnChange (a : ThreadHistoryChangeAccumulator) (changes : List ThreadHistoryTurnChange) :
    changes.foldl pushTurnChange a = { a with changedTurns := changes.foldl (SlotTable.put (·.turnId)) a.changedTurns } := by
  induction changes generalizing a with
  | nil => rfl
  | cons change changes ih => exact ih (a.pushTurnChange change)

theorem mem_noteRemovedTurnId (h : a.Valid) (turnId id : String) :
    id ∈ (a.noteRemovedTurnId turnId).removedTurnIds ↔ id ∈ a.removedTurnIds ∨ id = turnId := by
  unfold noteRemovedTurnId
  split
  · next hin =>
    refine ⟨.inl, fun hid => hid.elim (·) fun heq => ?_⟩
    rw [heq]
    exact (h.removed turnId).1 hin
  · simp

theorem noteRemovedTurnId_removed (h : a.Valid) (turnId id : String) :
    ((a.noteRemovedTurnId turnId).removedTurnIndexes.lookup id).isSome = true ↔
      id ∈ (a.noteRemovedTurnId turnId).removedTurnIds := by
  unfold noteRemovedTurnId
  split
  · exact h.removed id
  · rw [List.lookup_cons, List.mem_append, List.mem_singleton]
    by_cases hid : id = turnId
    · simp [hid]
    · simp [hid, beq_eq_false_iff_ne.2 hid, ← h.removed id]

theorem pushRemovedTurnId_spec (h : a.Valid) (turnId : String) :
    (a.pushRemovedTurnId turnId).Valid ∧
      (a.pushRemovedTurnId turnId).changedItems.values = a.changedItems.values.filter (·.turnId ≠ turnId) ∧
      (a.pushRemovedTurnId turnId).changedTurns.values = a.changedTurns.values.filter (·.turnId ≠ turnId) ∧
      ∀ id, id ∈ (a.pushRemovedTurnId turnId).removedTurnIds ↔ id ∈ a.removedTurnIds ∨ id = turnId := by
  have hsame : (a.noteRemovedTurnId turnId).changedItems = a.changedItems ∧
      (a.noteRemovedTurnId turnId).changedTurns = a.changedTurns := by
    unfold noteRemovedTurnId
    split <;> exact ⟨rfl, rfl⟩
  let keys := (a.changedItems.indexes.map (·.1)).filter (·.1 == turnId)
  obtain ⟨hvalid, hvalues⟩ := SlotTable.values_eraseAll h.items keys
  simp only [pushRemovedTurnId, hsame]
  refine ⟨⟨hvalid, h.turns.erase turnId, noteRemovedTurnId_removed h turnId⟩, hvalues.trans ?_,
    SlotTable.values_erase h.turns turnId, mem_noteRemovedTurnId h turnId⟩
  -- the keys that are erased are the keys of the turn's items
  refine List.filter_congr fun change hchange => ?_
  have hkey : change.key ∈ keys ↔ change.turnId = turnId := by
    simp only [keys, List.mem_filter, beq_iff_eq]
    exact ⟨fun hin => hin.2, fun hid => ⟨h.items.mem_keys hchange, hid⟩⟩
  simp [hkey]

theorem pushRemovedTurnIds (h : a.Valid) (ids : List String) :
    (ids.foldl pushRemovedTurnId a).Valid ∧
      (ids.foldl pushRemovedTurnId a).changedItems.values = a.changedItems.values.filter (·.turnId ∉ ids) ∧
      (ids.foldl pushRemovedTurnId a).changedTurns.values = a.changedTurns.values.filter (·.turnId ∉ ids) ∧
      ∀ id, id ∈ (ids.foldl pushRemovedTurnId a).removedTurnIds ↔ id ∈ a.removedTurnIds ∨ id ∈ ids := by
  induction ids generalizing a with
  | nil => exact ⟨h, by simp, by simp, by simp⟩
  | cons turnId ids ih =>
    obtain ⟨hvalid, hitems, hturns, hremoved⟩ := pushRemovedTurnId_spec h turnId
    obtain ⟨hvalid', hitems', hturns', hremoved'⟩ := ih hvalid
    refine ⟨hvalid', hitems'.trans ?_, hturns'.trans ?_, fun id => (hremoved' id).trans ?_⟩
    · rw [hitems, List.filter_filter]
      exact List.filter_congr fun x _ => by simp [Bool.and_comm]
    · rw [hturns, List.filter_filter]
      exact List.filter_congr fun x _ => by simp [Bool.and_comm]
    · rw [hremoved, List.mem_cons, or_assoc]

/-- **A merged change set** does what the change sets do one after the other. -/
theorem apply_push (h : a.Valid) (changes : ThreadHistoryChangeSet) :
    (a.push changes).Valid ∧ F.apply (a.push changes).finish = (F.apply a.finish).apply changes := by
  obtain ⟨hvalid, hitems, hturns, hremoved⟩ := pushRemovedTurnIds h changes.removedTurnIds
  obtain ⟨hvalid', hitems'⟩ := hvalid.items.putAll changes.changedItems
  obtain ⟨hvalid'', hturns'⟩ := hvalid.turns.putAll changes.changedTurns
  simp only [push, foldl_pushItemChange, foldl_pushTurnChange]
  refine ⟨⟨hvalid', hvalid'', hvalid.removed⟩, ?_⟩
  have hkept (id : String) : decide (id ∉ (changes.removedTurnIds.foldl pushRemovedTurnId a).removedTurnIds) =
      (decide (id ∉ a.removedTurnIds) && decide (id ∉ changes.removedTurnIds)) := by simp [hremoved]
  simp only [ThreadFollower.apply, ThreadFollower.removeTurns, finish, ThreadFollower.mk.injEq, hitems', hitems,
    hturns', hturns]
  exact ⟨upsertAll_filter_upsertAll hkept F.turns h.turns.nodup _,
    upsertAll_filter_upsertAll (fun k => hkept k.1) F.items h.items.nodup _⟩

end ThreadHistoryChangeAccumulator

/-! ## With and without changes -/

namespace ThreadHistoryBuilder

variable {E : Externals} {D : ItemDisplay}

/-- The builder without the changes it has collected. -/
def forget (b : ThreadHistoryBuilder) : ThreadHistoryBuilder := b.withChanges none

section
variable (b : ThreadHistoryBuilder)

@[simp] theorem forget_currentTurn : b.forget.currentTurn = b.currentTurn := rfl
@[simp] theorem forget_turns : b.forget.turns = b.turns := rfl
@[simp] theorem forget_nextItemId : b.forget.nextItemId = b.nextItemId := rfl
@[simp] theorem forget_newTurn (id : Option String) : b.forget.newTurn id = b.newTurn id := rfl
@[simp] theorem forget_currentTurnMatches (turnId : String) : b.forget.currentTurnMatches turnId = b.currentTurnMatches turnId := rfl
@[simp] theorem forget_hasFinishedTurn (turnId : String) : b.forget.hasFinishedTurn turnId = b.hasFinishedTurn turnId := rfl
@[simp] theorem forget_takeItemId : b.forget.takeItemId = b.takeItemId.forget := rfl
@[simp] theorem forget_openTurn (turn : PendingTurn) : b.forget.openTurn turn = (b.openTurn turn).forget := rfl

@[simp] theorem forget_finishCurrentTurn : b.forget.finishCurrentTurn = b.finishCurrentTurn.forget := by
  simp only [finishCurrentTurn, forget_currentTurn]
  split
  · split <;> rfl
  · rfl

@[simp] theorem forget_ensureTurn : b.forget.ensureTurn = b.ensureTurn.forget := by
  unfold ensureTurn
  rw [apply_ite forget]
  rfl

@[simp] theorem forget_changeItem (f : Turn → Turn) (item : ThreadItem) :
    b.forget.changeItemInCurrentTurn f item = (b.changeItemInCurrentTurn f item).forget := by
  simp only [changeItemInCurrentTurn, forget_currentTurn]
  split <;> rfl

@[simp] theorem forget_changeCurrentTurn (f : Turn → Turn) :
    b.forget.changeCurrentTurn f = (b.changeCurrentTurn f).forget := by
  simp only [changeCurrentTurn, forget_currentTurn]
  split <;> rfl

@[simp] theorem forget_changeFinishedTurn (turnId : String) (f : Turn → Turn) :
    b.forget.changeFinishedTurn turnId f = (b.changeFinishedTurn turnId f).forget := by
  simp only [changeFinishedTurn, forget_turns]
  split <;> rfl

@[simp] theorem forget_pushItem (item : ThreadItem) :
    b.forget.pushItemInCurrentTurn item = (b.pushItemInCurrentTurn item).forget := by
  simp only [pushItemInCurrentTurn, forget_ensureTurn, forget_changeItem]

@[simp] theorem forget_upsertItem (item : ThreadItem) :
    b.forget.upsertItemInCurrentTurn item = (b.upsertItemInCurrentTurn item).forget := by
  simp only [upsertItemInCurrentTurn, forget_ensureTurn, forget_changeItem]

@[simp] theorem forget_upsertItemInTurnId (turnId : String) (item : ThreadItem) :
    b.forget.upsertItemInTurnId turnId item = (b.upsertItemInTurnId turnId item).forget := by
  unfold upsertItemInTurnId
  rw [apply_ite forget, apply_ite forget, ← forget_changeItem]
  rfl

theorem forget_upsertReviewModeItem (turnId : Option String) (item : ThreadItem) :
    b.forget.upsertReviewModeItem turnId item = (b.upsertReviewModeItem turnId item).forget := by
  cases turnId with
  | none => exact forget_upsertItem b item
  | some turnId =>
    simp only [upsertReviewModeItem, forget_finishCurrentTurn, forget_openTurn, forget_newTurn]
    rw [← forget_upsertItemInTurnId, apply_ite forget]
    rfl

/-- **Collecting changes** does not change what an operation does to the turns. -/
theorem forget_run (op : HistoryOp) : op.run b.forget = (op.run b).forget := by
  cases op with
  | skip => rfl
  | push | upsertCurrent | upsertIn => simp [HistoryOp.run]
  | pushNext form => simp [HistoryOp.run]
  | userMessage form =>
    simp only [HistoryOp.run, forget_currentTurn, forget_finishCurrentTurn]
    rw [← apply_ite forget]
    simp
  | reasoning summary content =>
    simp only [HistoryOp.run, appendReasoning, forget_ensureTurn, forget_currentTurn]
    split <;> simp
  | reviewMode turnId itemId form =>
    cases itemId with
    | none => exact forget_upsertReviewModeItem b.takeItemId turnId _
    | some id => exact forget_upsertReviewModeItem b turnId _
  | error payload =>
    simp only [HistoryOp.run, handleError, forget_changeCurrentTurn, apply_ite forget]
  | aborted payload =>
    simp only [HistoryOp.run, handleTurnAborted]
    cases payload.turnId with
    | none => simp
    | some turnId => simp [apply_ite forget]
  | started payload => simp [HistoryOp.run, handleTurnStarted]
  | complete payload =>
    simp [HistoryOp.run, handleTurnComplete, apply_ite forget]
  | compacted =>
    simp only [HistoryOp.run, handleCompacted, forget_ensureTurn]
    rfl
  | rollback numTurns =>
    simp only [HistoryOp.run, handleThreadRollback, forget_finishCurrentTurn]
    rfl

end

theorem handleRolloutItemWithChanges_fst {b : ThreadHistoryBuilder} (h : b.activeChangeSet = none) (item : RolloutItem) :
    (b.handleRolloutItemWithChanges E D item).1 = b.handleRolloutItem E D item := by
  have hforget : (b.withChanges (some {})).nextRolloutItem.forget = b.nextRolloutItem := by
    cases b
    cases h
    rfl
  simp only [handleRolloutItemWithChanges, collectChanges, handleRolloutItem_eq]
  exact (forget_run _ _).symm.trans (congrArg (HistoryOp.run · _) hforget)

end ThreadHistoryBuilder

/-! ## Batches -/

namespace ThreadFollower

variable {E : Externals} {D : ItemDisplay}

/-- A follower that gets the changes of every record. -/
def followItems (E : Externals) (D : ItemDisplay) (s : ThreadHistoryBuilder × ThreadFollower) (items : List RolloutItem) :
    ThreadHistoryBuilder × ThreadFollower :=
  items.foldl (fun s item =>
    let (b, changes) := s.1.handleRolloutItemWithChanges E D item
    (b, s.2.apply changes)) s

theorem accumulateChanges_eq {a} (h : a.Valid) (b : ThreadHistoryBuilder)
    (F : ThreadFollower) (items : List RolloutItem) :
    ((ThreadHistoryBuilder.accumulateChanges E D (b, a) items).1,
        F.apply (ThreadHistoryBuilder.accumulateChanges E D (b, a) items).2.finish) =
      followItems E D (b, F.apply a.finish) items := by
  induction items generalizing a b with
  | nil => rfl
  | cons item items ih =>
    obtain ⟨hvalid, happly⟩ := a.apply_push F h (b.handleRolloutItemWithChanges E D item).2
    refine (ih hvalid _).trans ?_
    rw [happly]
    rfl

@[simp] theorem apply_empty (F : ThreadFollower) : F.apply {} = F := by simp [apply, removeTurns, upsertAll]

/-- **The batches do not matter**: their change sets do what those of the records do. -/
theorem follow_eq (batches : List (List RolloutItem)) :
    follow E D batches = followItems E D ({}, {}) batches.flatten := by
  suffices h : ∀ s, batches.foldl (fun s batch =>
      let (b, changes) := s.1.handleRolloutItemsWithChanges E D batch
      (b, s.2.apply changes)) s = followItems E D s batches.flatten from h _
  induction batches with
  | nil => exact fun s => rfl
  | cons batch batches ih =>
    intro s
    rw [List.foldl_cons, ih, List.flatten_cons, followItems, followItems, List.foldl_append]
    congr 1
    have hbatch := accumulateChanges_eq (E := E) (D := D) ThreadHistoryChangeAccumulator.valid_empty s.1 s.2 batch
    rwa [show s.2.apply ({} : ThreadHistoryChangeAccumulator).finish = s.2 from apply_empty s.2] at hbatch

end ThreadFollower

end Codex
