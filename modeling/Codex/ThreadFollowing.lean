/-
A follower holds the thread (`follow_shows`). What the change sets must tell depends on the ids. The builder draws ids of its
own, `rollout-<n>` for turns and `item-<n>` for items, and takes the others
from the records; `HistoryOp.Fits` says when the ids of a record keep apart
from those before it.
-/
import Codex.ThreadChanges
import Codex.TurnForks

namespace Codex

open KeyedList

/-- The id of a turn that the record at this position opens implicitly. -/
def implicitTurnId (rolloutIndex : Nat) : String := "rollout-" ++ toString rolloutIndex

def generatedItemId (n : Nat) : String := "item-" ++ toString n

theorem numbered_injective {label} {m n : Nat} (h : label ++ toString m = label ++ toString n) : m = n := by
  have hdigits : Nat.toDigits 10 m = Nat.toDigits 10 n := by
    simpa [Nat.toString_eq_repr] using congrArg String.toList h
  have hvalue := congrArg (Nat.ofDigitChars 10 · 0) hdigits
  simpa [Nat.ofDigitChars_toDigits] using hvalue

namespace HistoryOp

/-- The turn ids under which the operation may open a turn. -/
def turnIds : HistoryOp → List String
  | .started payload => [payload.turnId]
  | .reviewMode (some turnId) .. => [turnId]
  | _ => []

/-- The item ids that come with the record. -/
def itemIds : HistoryOp → List String
  | .push item | .upsertCurrent item | .upsertIn _ item => [item.id]
  | .reviewMode _ (some itemId) _ => [itemId]
  | _ => []

/-- The ids of an operation keep apart from those before it: a turn is started under a new id, a prompt has a new id,
no id looks like one that the builder draws, and a review names no implicit turn that comes after it. -/
def Fits (before : List HistoryOp) : HistoryOp → Prop
  | .started payload => payload.turnId ∉ before.flatMap turnIds ∧ ∀ n, payload.turnId ≠ implicitTurnId n
  | .reviewMode turnId itemId _ =>
    (∀ id ∈ turnId, ∀ n, id = implicitTurnId n → n ≤ before.length) ∧ ∀ id ∈ itemId, ∀ n, id ≠ generatedItemId n
  | .push item => item.id ∉ before.flatMap itemIds ∧ ∀ n, item.id ≠ generatedItemId n
  | .upsertCurrent item | .upsertIn _ item => ∀ n, item.id ≠ generatedItemId n
  | _ => True

end HistoryOp

/-- The operations of the records of a rollout. -/
def historyOps (E : Externals) (D : ItemDisplay) (items : List RolloutItem) : List HistoryOp :=
  items.mapIdx fun i item => item.historyOp E D i

/-- The ids of every record keep apart from those of the records before it. -/
def IdsFit (ops : List HistoryOp) : Prop := ∀ before op after, ops = before ++ op :: after → op.Fits before

/-- The follower holds these turns, with their fields and their items, and no other items. -/
structure ThreadFollower.Shows (F : ThreadFollower) (turns : List Turn) : Prop where
  turnsEq : F.turns = turns.map .fromTurn
  itemsEq : ∀ turn ∈ turns, F.itemsOf turn.id = turn.items
  known : ∀ change ∈ F.items, change.turnId ∈ turns.map (·.id)

/-! ## What a follower does -/

variable {turnId : String} {op : HistoryOp}

namespace ThreadFollower

variable {F : ThreadFollower} {turns pre post kept gone : List Turn} {turn turn' : Turn} {item : ThreadItem}

theorem itemsOf_eq_nil (h : ∀ change ∈ F.items, change.turnId ≠ turnId) : F.itemsOf turnId = [] := by
  rw [itemsOf, List.filter_eq_nil_iff.2 fun change hc => by simpa using h change hc, List.map_nil]

theorem Shows.openTurn (h : F.Shows turns) (hid : turn.id ∉ turns.map (·.id)) (hitems : turn.items = []) :
    (F.upsertTurn (.fromTurn turn)).Shows (turns ++ [turn]) := by
  constructor
  · rw [upsertTurn, upsert_of_new, h.turnsEq, List.map_append, List.map_singleton]
    intro change hc heq
    rw [h.turnsEq] at hc
    obtain ⟨other, hother, rfl⟩ := List.mem_map.1 hc
    exact hid (List.mem_map.2 ⟨other, hother, heq⟩)
  · intro other hother
    rcases List.mem_append.1 hother with hin | hnew
    · exact h.itemsEq other hin
    · rw [List.mem_singleton.1 hnew, hitems]
      refine itemsOf_eq_nil fun change hc heq => hid ?_
      rw [← heq]
      exact h.known change hc
  · intro change hc
    rw [List.map_append]
    exact List.mem_append_left _ (h.known change hc)

/-- Turns with distinct ids, taken apart at one of them. -/
theorem ids_split (h : ((pre ++ turn :: post).map (·.id)).Nodup) :
    (∀ t ∈ pre, t.id ≠ turn.id) ∧ ∀ t ∈ post, t.id ≠ turn.id := by
  rw [List.map_append, List.map_cons, List.nodup_append] at h
  obtain ⟨-, hpost, hpre⟩ := h
  constructor
  · exact fun t ht => hpre _ (List.mem_map_of_mem ht) _ (List.mem_cons_self ..)
  · exact fun t ht heq => (List.nodup_cons.1 hpost).1 (List.mem_map.2 ⟨t, ht, heq⟩)

theorem Shows.changeTurn (h : F.Shows (pre ++ turn :: post)) (hd : ((pre ++ turn :: post).map (·.id)).Nodup)
    (hid : turn'.id = turn.id) (hitems : turn'.items = turn.items) :
    (F.upsertTurn (.fromTurn turn')).Shows (pre ++ turn' :: post) := by
  obtain ⟨hpre, -⟩ := ids_split hd
  have hids : (pre ++ turn' :: post).map (·.id) = (pre ++ turn :: post).map (·.id) := by simp [hid]
  constructor
  · rw [upsertTurn, h.turnsEq, List.map_append, List.map_cons, upsert_split, List.map_append, List.map_cons]
    · intro change hc
      obtain ⟨t, ht, rfl⟩ := List.mem_map.1 hc
      exact fun heq => hpre t ht (heq.trans hid)
    · exact hid.symm
  · intro t ht
    rcases List.mem_append.1 ht with hin | hin
    · exact h.itemsEq t (List.mem_append_left _ hin)
    · rcases List.mem_cons.1 hin with rfl | hin
      · rw [hid, hitems]
        exact h.itemsEq turn (by simp)
      · exact h.itemsEq t (List.mem_append_right _ (List.mem_cons_of_mem _ hin))
  · intro change hc
    rw [hids]
    exact h.known change hc

theorem itemsOf_upsertItem (F : ThreadFollower) (turnId turnId' : String) (item : ThreadItem) :
    (F.upsertItem { turnId, item }).itemsOf turnId' =
      if turnId = turnId' then upsert (·.id) (F.itemsOf turnId') item else F.itemsOf turnId' := by
  have hfilter : (F.upsertItem { turnId, item }).items.filter (·.turnId == turnId') = _ :=
    @filter_upsert _ _ _ ThreadHistoryItemChange.key (fun k => k.1 == turnId') F.items { turnId, item }
  rw [itemsOf, hfilter]
  by_cases hid : turnId = turnId'
  · -- the items of one turn have the same keys as the items alone
    have hkey : ∀ change ∈ F.items.filter (·.turnId == turnId'),
        change.key = ThreadHistoryItemChange.key { turnId, item } ↔ change.item.id = item.id := by
      intro change hc
      have hturn : change.turnId = turnId' := by simpa using (List.mem_filter.1 hc).2
      simp [ThreadHistoryItemChange.key, hturn, hid]
    rw [if_pos (by simpa [ThreadHistoryItemChange.key] using hid), if_pos hid]
    exact map_upsert hkey
  · rw [if_neg (by simpa [ThreadHistoryItemChange.key] using hid), if_neg hid]
    rfl

theorem Shows.changeItem (h : F.Shows (pre ++ turn :: post)) (hd : ((pre ++ turn :: post).map (·.id)).Nodup)
    (hfields : ThreadHistoryTurnChange.fromTurn turn' = .fromTurn turn)
    (hitems : turn'.items = upsert (·.id) turn.items item) :
    (F.upsertItem { turnId := turn.id, item }).Shows (pre ++ turn' :: post) := by
  obtain ⟨hpre, hpost⟩ := ids_split hd
  have hid : turn'.id = turn.id := congrArg ThreadHistoryTurnChange.turnId hfields
  have hids : (pre ++ turn' :: post).map (·.id) = (pre ++ turn :: post).map (·.id) := by simp [hid]
  constructor
  · change F.turns = _
    rw [h.turnsEq, List.map_append, List.map_cons, List.map_append, List.map_cons, hfields]
  · intro t ht
    rw [itemsOf_upsertItem]
    rcases List.mem_append.1 ht with hin | hin
    · rw [if_neg (Ne.symm (hpre t hin))]
      exact h.itemsEq t (List.mem_append_left _ hin)
    · rcases List.mem_cons.1 hin with rfl | hin
      · rw [hid, if_pos rfl, h.itemsEq turn (by simp), hitems]
      · rw [if_neg (Ne.symm (hpost t hin))]
        exact h.itemsEq t (List.mem_append_right _ (List.mem_cons_of_mem _ hin))
  · intro change hc
    rw [hids]
    rcases mem_upsert hc with rfl | hin
    · simp
    · exact h.known change hin

/-- Turns taken off the end. -/
theorem Shows.removeTurns (h : F.Shows (kept ++ gone)) (hd : ((kept ++ gone).map (·.id)).Nodup) :
    (F.removeTurns (gone.map (·.id))).Shows kept := by
  rw [List.map_append, List.nodup_append] at hd
  obtain ⟨-, -, hne⟩ := hd
  have hkept : ∀ t ∈ kept, t.id ∉ gone.map (·.id) := fun t ht hin => hne _ (List.mem_map_of_mem ht) _ hin rfl
  constructor
  · change F.turns.filter _ = _
    rw [h.turnsEq, List.map_append, List.filter_append, List.filter_eq_self.2, List.filter_eq_nil_iff.2, List.append_nil]
    · intro change hc
      obtain ⟨t, ht, rfl⟩ := List.mem_map.1 hc
      simpa [ThreadHistoryTurnChange.fromTurn] using ⟨t, ht, rfl⟩
    · intro change hc
      obtain ⟨t, ht, rfl⟩ := List.mem_map.1 hc
      exact decide_eq_true (hkept t ht)
  · intro t ht
    rw [← h.itemsEq t (List.mem_append_left _ ht), itemsOf, itemsOf, ThreadFollower.removeTurns, List.filter_filter]
    congr 1
    refine List.filter_congr fun change _ => ?_
    by_cases hid : change.turnId = t.id
    · simpa [hid] using hkept t ht
    · simp [hid]
  · intro change hc
    obtain ⟨hin, hnot⟩ := List.mem_filter.1 hc
    have hmem := h.known change hin
    rw [List.map_append, List.mem_append] at hmem
    exact hmem.resolve_right (of_decide_eq_true hnot)

theorem apply_recordItem (F : ThreadFollower) (changes : ThreadHistoryChangeSet) (change : ThreadHistoryItemChange) :
    F.apply { changes with changedItems := changes.changedItems ++ [change] } = (F.apply changes).upsertItem change := by
  simp only [apply, upsertAll_append]
  rfl

theorem apply_recordTurn (F : ThreadFollower) (changes : ThreadHistoryChangeSet) (change : ThreadHistoryTurnChange) :
    F.apply { changes with changedTurns := changes.changedTurns ++ [change] } = (F.apply changes).upsertTurn change := by
  simp only [apply, upsertAll_append]
  rfl

end ThreadFollower

/-! ## What the builder records -/

theorem upsertTurnItem_eq (items : List ThreadItem) (item : ThreadItem) :
    upsertTurnItem items item = upsert (·.id) items item := by
  induction items with
  | nil => rfl
  | cons it items ih =>
    rw [upsertTurnItem, List.findIdx?_cons, upsert]
    by_cases hid : it.id = item.id
    · simp [hid]
    · rw [if_neg hid, ← ih, upsertTurnItem]
      cases items.findIdx? (·.id == item.id) <;> simp [hid]

theorem updateTurn_split {turns} (h : turns.any (·.id == turnId) = true) :
    ∃ pre turn post, turns = pre ++ turn :: post ∧ turn.id = turnId ∧ turns.find? (·.id == turnId) = some turn ∧
      ∀ f, updateTurn turnId f turns = pre ++ f turn :: post := by
  induction turns with
  | nil => cases h
  | cons turn turns ih =>
    by_cases hid : turn.id = turnId
    · exact ⟨[], turn, turns, rfl, hid, by simp [hid], fun f => by simp [updateTurn, hid]⟩
    · obtain ⟨pre, turn', post, rfl, hid', hfind, hupdate⟩ := ih (by simpa [hid] using h)
      exact ⟨turn :: pre, turn', post, rfl, hid', by simpa [hid] using hfind, fun f => by
        rw [updateTurn, if_neg hid, hupdate, List.cons_append]⟩

namespace ThreadHistoryBuilder

/-- A follower holds the builder's turns, whose ids are apart and known: the
ids of turns are among `T`, those of the open turn's items are among `I` or
drawn by the builder. -/
structure Follows (L : ThreadFollower) (T I : List String) (b : ThreadHistoryBuilder) : Prop where
  shown : L.Shows b.allTurns
  turnIds : (b.allTurns.map (·.id)).Nodup
  turnNames : b.allTurns.map (·.id) ⊆ T
  itemIds : ∀ turn ∈ b.currentTurn, (turn.items.map (·.id)).Nodup
  itemNames : ∀ turn ∈ b.currentTurn, ∀ item ∈ turn.items,
    item.id ∈ I ∨ ∃ n < b.nextItemIndex, item.id = generatedItemId n

/-- The changes collected so far, at the record at position `i`, bring the follower up to date. -/
structure Tracks (F : ThreadFollower) (i : Nat) (T I : List String) (b : ThreadHistoryBuilder) : Prop where
  current : b.currentRolloutIndex = i
  next : b.nextRolloutIndex = i + 1
  follows : ∃ changes, b.activeChangeSet = some changes ∧ Follows (F.apply changes) T I b

/-- The open turn would not be dropped if it were finished now. -/
def IsKept (b : ThreadHistoryBuilder) : Prop := ∀ turn ∈ b.currentTurn, turn.isKept = true

variable {F : ThreadFollower} {i : Nat} {T I T' I' : List String} {b : ThreadHistoryBuilder} {turn : PendingTurn}
  {item : ThreadItem} {f : Turn → Turn}

theorem Tracks.mono (h : b.Tracks F i T I) (hT : T ⊆ T') (hI : I ⊆ I') : b.Tracks F i T' I' := by
  obtain ⟨changes, hset, hfollows⟩ := h.follows
  exact { h with
    follows := ⟨changes, hset,
      { hfollows with
        turnNames := List.Subset.trans hfollows.turnNames hT
        itemNames := fun turn ht item hi => (hfollows.itemNames turn ht item hi).imp_left (hI ·) }⟩ }

theorem Tracks.finish (h : b.Tracks F i T I) (hkept : b.IsKept) :
    b.finishCurrentTurn.Tracks F i T I ∧ b.finishCurrentTurn.currentTurn = none ∧
      b.finishCurrentTurn.allTurns = b.allTurns := by
  cases hcur : b.currentTurn with
  | none =>
    rw [finishCurrentTurn_none hcur]
    exact ⟨h, hcur, rfl⟩
  | some turn =>
    have hall : ({ b with currentTurn := none, turns := b.turns ++ [turn.toTurn] } : ThreadHistoryBuilder).allTurns =
        b.allTurns := by rw [allTurns_open hcur, allTurns_none rfl]
    obtain ⟨changes, hset, hfollows⟩ := h.follows
    rw [finishCurrentTurn_open hcur (hkept turn hcur)]
    refine ⟨⟨h.current, h.next, changes, hset, ?_⟩, rfl, hall⟩
    exact { shown := hall ▸ hfollows.shown, turnIds := hall ▸ hfollows.turnIds, turnNames := hall ▸ hfollows.turnNames,
            itemIds := fun _ ht => (by cases ht), itemNames := fun _ ht => (by cases ht) }

theorem Tracks.openTurn (h : b.Tracks F i T I) (hcur : b.currentTurn = none) (hitems : turn.items = [])
    (hid : turn.id ∉ b.allTurns.map (·.id)) (hT : turn.id ∈ T) : (b.openTurn turn).Tracks F i T I := by
  obtain ⟨changes, hset, hfollows⟩ := h.follows
  have hall : (b.openTurn turn).allTurns = b.allTurns ++ [turn.toTurn] := by
    rw [allTurns_open (openTurn_currentTurn b turn), allTurns_none hcur, openTurn_turns]
  refine ⟨h.current, h.next, { changes with changedTurns := changes.changedTurns ++ [.fromTurn turn.toTurn] }, ?_, ?_⟩
  · rw [ThreadHistoryBuilder.openTurn, recordChangedTurn, hset]
    rfl
  · rw [ThreadFollower.apply_recordTurn]
    constructor
    · rw [hall]
      exact hfollows.shown.openTurn hid hitems
    · rw [hall, List.map_append, List.nodup_append]
      refine ⟨hfollows.turnIds, List.nodup_singleton _, fun id hin id' hin' heq => hid ?_⟩
      have hturn : id = turn.id := heq.trans (List.mem_singleton.1 hin')
      rwa [← hturn]
    · rw [hall, List.map_append]
      exact List.append_subset.2 ⟨hfollows.turnNames, fun id hin => List.mem_singleton.1 hin ▸ hT⟩
    · intro t ht
      cases ht
      simp [hitems]
    · intro t ht item hin
      cases ht
      simp [hitems] at hin

theorem finishCurrentTurn_nextItemIndex (b : ThreadHistoryBuilder) :
    b.finishCurrentTurn.nextItemIndex = b.nextItemIndex := by
  unfold finishCurrentTurn
  split
  · split <;> rfl
  · rfl

theorem finishCurrentTurn_activeChangeSet (b : ThreadHistoryBuilder) :
    b.finishCurrentTurn.activeChangeSet = b.activeChangeSet := by
  unfold finishCurrentTurn
  split
  · split <;> rfl
  · rfl

@[simp] theorem ensureTurn_nextItemIndex (b : ThreadHistoryBuilder) : b.ensureTurn.nextItemIndex = b.nextItemIndex := by
  unfold ensureTurn
  split <;> rfl

theorem Tracks.ensureTurn (h : b.Tracks F i T I)
    (hfresh : b.currentTurn = none → implicitTurnId i ∉ b.allTurns.map (·.id)) (hT : implicitTurnId i ∈ T) :
    b.ensureTurn.Tracks F i T I ∧
      ∃ turn, b.ensureTurn.currentTurn = some turn ∧ (b.currentTurn = some turn ∨ turn.items = []) := by
  cases hcur : b.currentTurn with
  | some turn =>
    rw [ensureTurn_open hcur]
    exact ⟨h, turn, hcur, .inl rfl⟩
  | none =>
    have hid : (b.newTurn none).id = implicitTurnId i := by rw [← h.current]; rfl
    rw [ThreadHistoryBuilder.ensureTurn, hcur]
    exact ⟨h.openTurn hcur rfl (by rw [hid]; exact hfresh hcur) (by rwa [hid]), _, rfl, .inr rfl⟩

theorem Tracks.takeItemId (h : b.Tracks F i T I) : b.takeItemId.Tracks F i T I := by
  obtain ⟨changes, hset, hfollows⟩ := h.follows
  refine ⟨h.current, h.next, changes, hset, { hfollows with itemNames := fun turn ht item hi => ?_ }⟩
  refine (hfollows.itemNames turn ht item hi).imp_right ?_
  rintro ⟨n, hn, heq⟩
  exact ⟨n, Nat.lt_succ_of_lt hn, heq⟩

theorem Follows.sameIds {L L' : ThreadFollower} {b' : ThreadHistoryBuilder} (h : b.Follows L T I)
    (hshown : L'.Shows b'.allTurns) (hids : b'.allTurns.map (·.id) = b.allTurns.map (·.id))
    (hitemIds : ∀ turn ∈ b'.currentTurn, (turn.items.map (·.id)).Nodup)
    (hitemNames : ∀ turn ∈ b'.currentTurn, ∀ item ∈ turn.items,
      item.id ∈ I ∨ ∃ n < b'.nextItemIndex, item.id = generatedItemId n) : b'.Follows L' T I :=
  { shown := hshown, turnIds := hids ▸ h.turnIds, turnNames := hids ▸ h.turnNames, itemIds := hitemIds,
    itemNames := hitemNames }

theorem Tracks.changeItem (h : b.Tracks F i T I) (hcur : b.currentTurn = some turn)
    (hfields : ThreadHistoryTurnChange.fromTurn (f turn.toTurn) = .fromTurn turn.toTurn)
    (hitems : (f turn.toTurn).items = upsert (·.id) turn.items item)
    (hname : item.id ∈ I ∨ ∃ n < b.nextItemIndex, item.id = generatedItemId n) :
    (b.changeItemInCurrentTurn f item).Tracks F i T I ∧ (b.changeItemInCurrentTurn f item).IsKept := by
  obtain ⟨changes, hset, hfollows⟩ := h.follows
  have hid : (f turn.toTurn).id = turn.id := congrArg ThreadHistoryTurnChange.turnId hfields
  have hold := allTurns_open hcur
  rw [changeItemInCurrentTurn_open hcur]
  constructor
  · refine ⟨h.current, h.next, { changes with changedItems := changes.changedItems ++ [{ turnId := turn.id, item }] }, ?_, ?_⟩
    · rw [recordChangedItem, setCurrentTurn, hset]
      rfl
    · rw [ThreadFollower.apply_recordItem]
      refine hfollows.sameIds ?_ ?_ ?_ ?_
      · exact (hold ▸ hfollows.shown).changeItem (hold ▸ hfollows.turnIds) hfields hitems
      · simp [allTurns, hcur, PendingTurn.update, hid]
      · intro t ht
        cases ht
        change ((f turn.toTurn).items.map (·.id)).Nodup
        rw [hitems]
        exact nodup_upsert (hfollows.itemIds turn hcur) item
      · intro t ht it hin
        cases ht
        change it ∈ (f turn.toTurn).items at hin
        rw [hitems] at hin
        rcases mem_upsert hin with rfl | hin
        · exact hname
        · exact hfollows.itemNames turn hcur it hin
  · intro t ht
    cases ht
    have hne : (f turn.toTurn).items ≠ [] := by
      rw [hitems]
      cases turn.items with
      | nil => exact List.cons_ne_nil _ _
      | cons it items =>
        rw [upsert]
        split <;> exact List.cons_ne_nil _ _
    simp [PendingTurn.isKept, PendingTurn.update, hne]

theorem Tracks.changeCurrentTurn (h : b.Tracks F i T I) (hkept : b.IsKept) (hid : ∀ t, (f t).id = t.id)
    (hitems : ∀ t, (f t).items = t.items) :
    (b.changeCurrentTurn f).Tracks F i T I ∧ (b.changeCurrentTurn f).IsKept := by
  cases hcur : b.currentTurn with
  | none =>
    rw [changeCurrentTurn_none hcur]
    exact ⟨h, hkept⟩
  | some turn =>
    obtain ⟨changes, hset, hfollows⟩ := h.follows
    have hold := allTurns_open hcur
    rw [changeCurrentTurn_open hcur]
    constructor
    · refine ⟨h.current, h.next, { changes with changedTurns := changes.changedTurns ++ [.fromTurn (f turn.toTurn)] }, ?_, ?_⟩
      · rw [recordChangedTurn, setCurrentTurn, hset]
        rfl
      · rw [ThreadFollower.apply_recordTurn]
        refine hfollows.sameIds ?_ ?_ ?_ ?_
        · exact (hold ▸ hfollows.shown).changeTurn (hold ▸ hfollows.turnIds) (hid _) (hitems _)
        · simp [allTurns, hcur, PendingTurn.update, hid]
        · intro t ht
          cases ht
          change ((f turn.toTurn).items.map (·.id)).Nodup
          rw [hitems]
          exact hfollows.itemIds turn hcur
        · intro t ht it hin
          cases ht
          change it ∈ (f turn.toTurn).items at hin
          rw [hitems] at hin
          exact hfollows.itemNames turn hcur it hin
    · intro t ht
      cases ht
      simpa [PendingTurn.isKept, PendingTurn.update, hitems] using hkept turn hcur

theorem Tracks.changeFinishedTurn (h : b.Tracks F i T I) (hkept : b.IsKept)
    (hturn : b.hasFinishedTurn turnId = true) (hid : ∀ t, (f t).id = t.id) (hitems : ∀ t, (f t).items = t.items) :
    (b.changeFinishedTurn turnId f).Tracks F i T I ∧ (b.changeFinishedTurn turnId f).IsKept := by
  obtain ⟨pre, turn, post, hturns, -, hfind, hupdate⟩ := updateTurn_split hturn
  obtain ⟨changes, hset, hfollows⟩ := h.follows
  have hold : b.allTurns = pre ++ turn :: (post ++ (b.currentTurn.map (·.toTurn)).toList) := by simp [allTurns, hturns]
  simp only [ThreadHistoryBuilder.changeFinishedTurn, hfind, hupdate]
  refine ⟨⟨h.current, h.next, { changes with changedTurns := changes.changedTurns ++ [.fromTurn (f turn)] }, ?_, ?_⟩, hkept⟩
  · rw [recordChangedTurn, setTurns, hset]
    rfl
  · rw [ThreadFollower.apply_recordTurn]
    refine hfollows.sameIds ?_ ?_ hfollows.itemIds hfollows.itemNames
    · have hnew := (hold ▸ hfollows.shown).changeTurn (hold ▸ hfollows.turnIds) (hid turn) (hitems turn)
      simpa [allTurns] using hnew
    · simp [allTurns, hturns, hid]

theorem Tracks.upsertFinished (h : b.Tracks F i T I)
    (hturn : b.hasFinishedTurn turnId = true) (item : ThreadItem) :
    ((b.setTurns (updateTurn turnId (·.upsertItem item) b.turns)).recordChangedItem turnId item).Tracks F i T I := by
  obtain ⟨pre, turn, post, hturns, rfl, -, hupdate⟩ := updateTurn_split hturn
  obtain ⟨changes, hset, hfollows⟩ := h.follows
  have hold : b.allTurns = pre ++ turn :: (post ++ (b.currentTurn.map (·.toTurn)).toList) := by simp [allTurns, hturns]
  rw [hupdate]
  refine ⟨h.current, h.next, { changes with changedItems := changes.changedItems ++ [{ turnId := turn.id, item }] }, ?_, ?_⟩
  · rw [recordChangedItem, setTurns, hset]
    rfl
  · rw [ThreadFollower.apply_recordItem]
    refine hfollows.sameIds ?_ ?_ hfollows.itemIds hfollows.itemNames
    · have hnew : ThreadFollower.Shows _ (pre ++ turn.upsertItem item :: _) :=
        (hold ▸ hfollows.shown).changeItem (hold ▸ hfollows.turnIds) rfl (upsertTurnItem_eq turn.items item)
      simpa [allTurns] using hnew
    · simp [allTurns, hturns, Turn.upsertItem]

/-! ## Items -/

theorem generatedItemId_injective {m n : Nat} (h : generatedItemId m = generatedItemId n) : m = n :=
  numbered_injective h

theorem Tracks.pushItem (h : b.Tracks F i T I)
    (hfresh : b.currentTurn = none → implicitTurnId i ∉ b.allTurns.map (·.id)) (hT : implicitTurnId i ∈ T)
    (hname : item.id ∈ I ∨ ∃ n < b.nextItemIndex, item.id = generatedItemId n)
    (hnew : ∀ turn ∈ b.currentTurn, ∀ it ∈ turn.items, it.id ≠ item.id) :
    (b.pushItemInCurrentTurn item).Tracks F i T I ∧ (b.pushItemInCurrentTurn item).IsKept := by
  obtain ⟨h', turn, hcur, hturn⟩ := h.ensureTurn hfresh hT
  have hnew' : ∀ it ∈ turn.items, it.id ≠ item.id := by
    rcases hturn with hold | hnone
    · exact hnew turn hold
    · simp [hnone]
  exact h'.changeItem hcur rfl (upsert_of_new hnew').symm (by simpa using hname)

theorem Tracks.pushNext (h : b.Tracks F i T I)
    (hfresh : b.currentTurn = none → implicitTurnId i ∉ b.allTurns.map (·.id)) (hT : implicitTurnId i ∈ T)
    (hI : ∀ id ∈ I, ∀ n, id ≠ generatedItemId n) (form : ItemForm) :
    (b.takeItemId.pushItemInCurrentTurn (form.1 b.nextItemId)).Tracks F i T I ∧
      (b.takeItemId.pushItemInCurrentTurn (form.1 b.nextItemId)).IsKept := by
  have hid : (form.1 b.nextItemId).id = generatedItemId b.nextItemIndex := form.2 _
  obtain ⟨changes, -, hfollows⟩ := h.follows
  refine h.takeItemId.pushItem hfresh hT (.inr ⟨b.nextItemIndex, Nat.lt_succ_self _, hid⟩) fun turn ht it hit heq => ?_
  rw [hid] at heq
  rcases hfollows.itemNames turn ht it hit with hin | ⟨n, hn, hgen⟩
  · exact hI _ hin _ heq
  · exact absurd (generatedItemId_injective (hgen.symm.trans heq)) (Nat.ne_of_lt hn)

theorem Tracks.upsertCurrent (h : b.Tracks F i T I)
    (hfresh : b.currentTurn = none → implicitTurnId i ∉ b.allTurns.map (·.id)) (hT : implicitTurnId i ∈ T)
    (hname : item.id ∈ I ∨ ∃ n < b.nextItemIndex, item.id = generatedItemId n) :
    (b.upsertItemInCurrentTurn item).Tracks F i T I ∧ (b.upsertItemInCurrentTurn item).IsKept := by
  obtain ⟨h', turn, hcur, -⟩ := h.ensureTurn hfresh hT
  exact h'.changeItem hcur rfl (upsertTurnItem_eq turn.items item) (by simpa using hname)

theorem Tracks.upsertInTurnId (h : b.Tracks F i T I) (hkept : b.currentTurnMatches turnId = true ∨ b.IsKept)
    (hname : item.id ∈ I ∨ ∃ n < b.nextItemIndex, item.id = generatedItemId n) :
    (b.upsertItemInTurnId turnId item).Tracks F i T I ∧ (b.upsertItemInTurnId turnId item).IsKept := by
  unfold upsertItemInTurnId
  split
  · next hmatch =>
    cases hcur : b.currentTurn with
    | none => simp [currentTurnMatches, hcur] at hmatch
    | some turn => exact h.changeItem hcur rfl (upsertTurnItem_eq turn.items item) hname
  · next hmatch =>
    have hkept : b.IsKept := hkept.resolve_left hmatch
    split
    · next hfinished => exact ⟨h.upsertFinished hfinished item, hkept⟩
    · exact ⟨h, hkept⟩

theorem Tracks.upsertReviewMode (h : b.Tracks F i T I) (hkept : b.IsKept) (hid : turnId ∈ T)
    (hname : item.id ∈ I ∨ ∃ n < b.nextItemIndex, item.id = generatedItemId n) :
    (b.upsertReviewModeItem (some turnId) item).Tracks F i T I ∧ (b.upsertReviewModeItem (some turnId) item).IsKept := by
  simp only [upsertReviewModeItem]
  split
  · next hunknown =>
    obtain ⟨hfinish, hnone, hall⟩ := h.finish hkept
    have hnew : turnId ∉ b.finishCurrentTurn.allTurns.map (·.id) := by
      simp only [Bool.and_eq_true, Bool.not_eq_true'] at hunknown
      obtain ⟨hcur, hturns⟩ := hunknown
      rw [hall, allTurns, List.map_append, List.mem_append, not_or]
      refine ⟨by simpa [hasFinishedTurn] using hturns, ?_⟩
      cases hopen : b.currentTurn with
      | none => simp
      | some turn =>
        have hne : turn.id ≠ turnId := by simpa [currentTurnMatches, hopen] using hcur
        simpa using hne.symm
    have hopened := @Tracks.openTurn F i T I _ (b.finishCurrentTurn.newTurn (some turnId)) hfinish hnone rfl hnew hid
    have hindex : b.finishCurrentTurn.nextItemIndex = b.nextItemIndex := finishCurrentTurn_nextItemIndex b
    refine hopened.upsertInTurnId (.inl (by simp [currentTurnMatches, newTurn])) ?_
    exact hindex ▸ hname
  · exact h.upsertInTurnId (.inr hkept) hname

theorem Tracks.appendReasoning (h : b.Tracks F i T I)
    (hfresh : b.currentTurn = none → implicitTurnId i ∉ b.allTurns.map (·.id)) (hT : implicitTurnId i ∈ T)
    (hI : ∀ id ∈ I, ∀ n, id ≠ generatedItemId n) (summary content : List String) :
    (b.appendReasoning summary content).Tracks F i T I ∧ (b.appendReasoning summary content).IsKept := by
  obtain ⟨h', turn, hcur, -⟩ := h.ensureTurn hfresh hT
  simp only [ThreadHistoryBuilder.appendReasoning, hcur, Option.bind_some]
  split
  · next item hextend =>
    -- the last item is extended in place, under its own id
    obtain ⟨id, summary', content', hlast, rfl⟩ : ∃ id summary' content',
        turn.items.getLast? = some (.reasoning id summary' content') ∧
          item = .reasoning id (summary' ++ summary) (content' ++ content) := by
      cases hlast : turn.items.getLast? with
      | none => simp [hlast, extendReasoning] at hextend
      | some last =>
        cases last <;> simp [hlast, extendReasoning] at hextend
        exact ⟨_, _, _, rfl, hextend.symm⟩
    obtain ⟨pre, hitems⟩ := List.getLast?_eq_some_iff.1 hlast
    obtain ⟨changes, -, hfollows⟩ := h'.follows
    have hnodup := hfollows.itemIds turn hcur
    have hpre : ∀ it ∈ pre, it.id ≠ id := by
      rw [hitems, List.map_append, List.nodup_append] at hnodup
      exact fun it hit heq => hnodup.2.2 _ (List.mem_map_of_mem hit) _ (by simp [ThreadItem.id]) heq
    refine h'.changeItem hcur rfl ?_ ?_
    · change turn.items.dropLast ++ _ = _
      rw [hitems, List.dropLast_concat]
      have hsplit := @upsert_split _ _ _ ThreadItem.id (.reasoning id (summary' ++ summary) (content' ++ content)) pre []
        (.reasoning id summary' content') hpre rfl
      exact hsplit.symm
    · exact hfollows.itemNames turn hcur (.reasoning id summary' content') (by rw [hitems]; simp)
  · exact h'.pushNext (fun hnone => by cases hcur.symm.trans hnone) hT hI ⟨(.reasoning · summary content), fun _ => rfl⟩

/-! ## Turns -/

theorem Tracks.started (h : b.Tracks F i T I) (hkept : b.IsKept) {payload}
    (hnew : payload.turnId ∉ b.allTurns.map (·.id)) (hid : payload.turnId ∈ T) :
    (b.handleTurnStarted payload).Tracks F i T I ∧ (b.handleTurnStarted payload).IsKept := by
  obtain ⟨hfinish, hnone, hall⟩ := h.finish hkept
  constructor
  · exact hfinish.openTurn hnone rfl (by rw [hall]; exact hnew) hid
  · intro turn ht
    cases ht
    rfl

theorem Tracks.complete (h : b.Tracks F i T I) (hkept : b.IsKept) (payload : TurnCompleteEvent) :
    (b.handleTurnComplete payload).Tracks F i T I ∧ (b.handleTurnComplete payload).IsKept := by
  have hclose : (b.changeCurrentTurn (·.markCompleted payload)).finishCurrentTurn.Tracks F i T I ∧
      (b.changeCurrentTurn (·.markCompleted payload)).finishCurrentTurn.IsKept := by
    have hmark : (b.changeCurrentTurn (·.markCompleted payload)).Tracks F i T I ∧
        (b.changeCurrentTurn (·.markCompleted payload)).IsKept :=
      h.changeCurrentTurn hkept (by exact fun _ => rfl) (by exact fun _ => rfl)
    obtain ⟨hfinish, hnone, -⟩ := hmark.1.finish hmark.2
    exact ⟨hfinish, fun turn ht => by cases hnone.symm.trans ht⟩
  unfold handleTurnComplete
  split
  · exact hclose
  · split
    · next hturn => exact h.changeFinishedTurn hkept hturn (fun _ => rfl) fun _ => rfl
    · exact hclose

theorem Tracks.aborted (h : b.Tracks F i T I) (hkept : b.IsKept) (payload : TurnAbortedEvent) :
    (b.handleTurnAborted payload).Tracks F i T I ∧ (b.handleTurnAborted payload).IsKept := by
  have hcurrent : (b.changeCurrentTurn (·.abort payload)).Tracks F i T I ∧ (b.changeCurrentTurn (·.abort payload)).IsKept :=
    h.changeCurrentTurn hkept (by exact fun _ => rfl) (by exact fun _ => rfl)
  unfold handleTurnAborted
  split
  · split
    · exact hcurrent
    · split
      · next hturn => exact h.changeFinishedTurn hkept hturn (fun _ => rfl) fun _ => rfl
      · exact hcurrent
  · exact hcurrent

theorem Tracks.compacted (h : b.Tracks F i T I)
    (hfresh : b.currentTurn = none → implicitTurnId i ∉ b.allTurns.map (·.id)) (hT : implicitTurnId i ∈ T) :
    b.handleCompacted.Tracks F i T I ∧ b.handleCompacted.IsKept := by
  obtain ⟨h', turn, hcur, -⟩ := h.ensureTurn hfresh hT
  obtain ⟨changes, hset, hfollows⟩ := h'.follows
  have hmarked : b.handleCompacted = b.ensureTurn.setCurrentTurn { turn with sawCompaction := true } := by
    simp only [handleCompacted, hcur]
    rfl
  have hall : b.handleCompacted.allTurns = b.ensureTurn.allTurns := by
    rw [hmarked, allTurns_open hcur]
    rfl
  rw [hmarked] at hall ⊢
  constructor
  · refine ⟨h'.current, h'.next, changes, hset, hfollows.sameIds (hall ▸ hfollows.shown) (by rw [hall]) ?_ ?_⟩
    · intro t ht
      cases ht
      exact hfollows.itemIds turn hcur
    · intro t ht
      cases ht
      exact hfollows.itemNames turn hcur
  · intro t ht
    cases ht
    simp [PendingTurn.isKept]

theorem Tracks.rollback (h : b.Tracks F i T I) (hkept : b.IsKept) (hempty : b.activeChangeSet = some {}) (numTurns : UInt32) :
    (b.handleThreadRollback numTurns).Tracks F i T I ∧ (b.handleThreadRollback numTurns).IsKept := by
  obtain ⟨hfinish, hnone, -⟩ := h.finish hkept
  have hempty' : b.finishCurrentTurn.activeChangeSet = some {} := (finishCurrentTurn_activeChangeSet b).trans hempty
  obtain ⟨changes, hset, hfollows⟩ := hfinish.follows
  cases hempty'.symm.trans hset
  rw [ThreadFollower.apply_empty] at hfollows
  obtain ⟨kept, gone, hturns, hids, hkeep⟩ : ∃ kept gone, b.finishCurrentTurn.turns = kept ++ gone ∧
      (if numTurns.toNat ≥ b.finishCurrentTurn.turns.length then b.finishCurrentTurn.turns.map (·.id)
        else if numTurns.toNat = 0 then []
        else (b.finishCurrentTurn.turns.drop (b.finishCurrentTurn.turns.length - numTurns.toNat)).map (·.id)) = gone.map (·.id) ∧
      (if numTurns.toNat ≥ b.finishCurrentTurn.turns.length then []
        else b.finishCurrentTurn.turns.take (b.finishCurrentTurn.turns.length - numTurns.toNat)) = kept := by
    by_cases hall : numTurns.toNat ≥ b.finishCurrentTurn.turns.length
    · exact ⟨[], _, rfl, if_pos hall, if_pos hall⟩
    · refine ⟨_, b.finishCurrentTurn.turns.drop (b.finishCurrentTurn.turns.length - numTurns.toNat),
        (List.take_append_drop _ _).symm, ?_, if_neg hall⟩
      rw [if_neg hall]
      split
      · next hzero => simp [hzero]
      · rfl
  have hall : b.finishCurrentTurn.allTurns = kept ++ gone := (allTurns_none hnone).trans hturns
  have hnew : b.handleThreadRollback numTurns =
      { (b.finishCurrentTurn.recordRemovedTurnIds (gone.map (·.id))) with
        turns := kept, nextItemIndex := (kept.map (·.items.length)).sum + 1 } := by
    simp only [handleThreadRollback, hids, recordRemovedTurnIds_turns, hkeep]
  rw [hnew]
  have hkeptTurns : ({ (b.finishCurrentTurn.recordRemovedTurnIds (gone.map (·.id))) with
      turns := kept, nextItemIndex := (kept.map (·.items.length)).sum + 1 } : ThreadHistoryBuilder).allTurns = kept :=
    allTurns_none hnone
  have hcurrent (turn : PendingTurn) : turn ∉ b.finishCurrentTurn.currentTurn := by rw [hnone]; simp
  constructor
  · refine ⟨hfinish.current, hfinish.next, { removedTurnIds := gone.map (·.id) }, ?_, ?_⟩
    · change b.finishCurrentTurn.activeChangeSet.map _ = _
      rw [hempty']
      rfl
    · have happly : F.apply { removedTurnIds := gone.map (·.id) } = F.removeTurns (gone.map (·.id)) := rfl
      have hnames := hall ▸ hfollows.turnNames
      have hnodup := hall ▸ hfollows.turnIds
      constructor
      · rw [hkeptTurns]
        exact (hall ▸ hfollows.shown).removeTurns hnodup
      · rw [hkeptTurns]
        rw [List.map_append] at hnodup
        exact (List.nodup_append.1 hnodup).1
      · rw [hkeptTurns]
        rw [List.map_append] at hnames
        exact (List.append_subset.1 hnames).1
      · exact fun turn ht => absurd ht (hcurrent turn)
      · exact fun turn ht => absurd ht (hcurrent turn)
  · exact fun turn ht => absurd ht (hcurrent turn)

end ThreadHistoryBuilder

/-! ## A whole rollout -/

/-- The ids of turns that may exist after the operations. -/
def knownTurnIds (ops : List HistoryOp) : List String :=
  ops.flatMap (·.turnIds) ++ (List.range ops.length).map implicitTurnId

theorem IdsFit.of_append {ops more} (h : IdsFit (ops ++ more)) : IdsFit ops :=
  fun before op after heq => h before op (after ++ more) (by rw [heq, List.append_assoc, List.cons_append])

theorem IdsFit.last {ops} (h : IdsFit (ops ++ [op])) : op.Fits ops := h ops op [] rfl

theorem IdsFit.itemIds {ops} (h : IdsFit ops) : ∀ id ∈ ops.flatMap (·.itemIds), ∀ n, id ≠ generatedItemId n := by
  intro id hid
  obtain ⟨op, hop, hin⟩ := List.mem_flatMap.1 hid
  obtain ⟨before, after, heq⟩ := List.append_of_mem hop
  have hfits := h before op after heq
  cases op with
  | push item =>
    rw [List.mem_singleton.1 hin]
    exact hfits.2
  | upsertCurrent item | upsertIn turnId item =>
    rw [List.mem_singleton.1 hin]
    exact hfits
  | reviewMode turnId itemId form =>
    cases itemId with
    | none => cases hin
    | some itemId =>
      rw [List.mem_singleton.1 hin]
      exact hfits.2 itemId rfl
  | _ => cases hin

theorem IdsFit.implicit_new {ops} (h : IdsFit ops) : implicitTurnId ops.length ∉ knownTurnIds ops := by
  intro hmem
  rcases List.mem_append.1 hmem with hnamed | himplicit
  · obtain ⟨op, hop, hin⟩ := List.mem_flatMap.1 hnamed
    obtain ⟨before, after, heq⟩ := List.append_of_mem hop
    have hfits := h before op after heq
    cases op with
    | started payload => exact hfits.2 ops.length (List.mem_singleton.1 hin).symm
    | reviewMode turnId itemId form =>
      cases turnId with
      | none => cases hin
      | some turnId =>
        have hle := hfits.1 turnId rfl ops.length (List.mem_singleton.1 hin).symm
        rw [heq, List.length_append, List.length_cons] at hle
        omega
    | _ => cases hin
  · obtain ⟨n, hn, heq⟩ := List.mem_map.1 himplicit
    have hlt := List.mem_range.1 hn
    exact absurd (numbered_injective heq) (Nat.ne_of_lt hlt)

namespace ThreadHistoryBuilder

variable {E : Externals} {D : ItemDisplay} {F : ThreadFollower} {b : ThreadHistoryBuilder} {ops : List HistoryOp}

/-- **One operation** brings the follower up to date, when its ids fit. -/
theorem run_tracks (hfit : IdsFit (ops ++ [op]))
    (h : b.Tracks F ops.length (knownTurnIds ops) (ops.flatMap (·.itemIds))) (hkept : b.IsKept)
    (hempty : b.activeChangeSet = some {}) :
    (op.run b).Tracks F ops.length (knownTurnIds (ops ++ [op])) ((ops ++ [op]).flatMap (·.itemIds)) ∧
      (op.run b).IsKept := by
  have hnames : b.allTurns.map (·.id) ⊆ knownTurnIds ops := by
    obtain ⟨changes, -, hfollows⟩ := h.follows
    exact hfollows.turnNames
  have hfresh : implicitTurnId ops.length ∉ b.allTurns.map (·.id) := fun hin => hfit.of_append.implicit_new (hnames hin)
  have hT : implicitTurnId ops.length ∈ knownTurnIds (ops ++ [op]) :=
    List.mem_append_right _ (List.mem_map_of_mem (by simp))
  have hI := hfit.itemIds
  have hfits := hfit.last
  have hold := h
  replace h : b.Tracks F ops.length (knownTurnIds (ops ++ [op])) ((ops ++ [op]).flatMap (·.itemIds)) := by
    refine h.mono (fun id hid => ?_) (by simp)
    simp only [knownTurnIds, List.mem_append, List.flatMap_append, List.mem_map, List.mem_range, List.length_append] at hid ⊢
    rcases hid with hid | ⟨n, hn, rfl⟩
    · exact .inl (.inl hid)
    · exact .inr ⟨n, by omega, rfl⟩
  cases op with
  | skip => exact ⟨h, hkept⟩
  | push item =>
    refine h.pushItem (fun _ => hfresh) hT (.inl (by simp [HistoryOp.itemIds])) fun turn ht it hit heq => ?_
    obtain ⟨changes, -, hfollows⟩ := hold.follows
    rcases hfollows.itemNames turn ht it hit with hin | ⟨n, -, hgen⟩
    · exact hfits.1 (heq ▸ hin)
    · exact hfits.2 n (heq.symm.trans hgen)
  | pushNext form => exact h.pushNext (fun _ => hfresh) hT hI form
  | userMessage form =>
    simp only [HistoryOp.run]
    split
    · obtain ⟨hfinish, -, hall⟩ := h.finish hkept
      exact hfinish.pushNext (fun _ => by rw [hall]; exact hfresh) hT hI form
    · exact h.pushNext (fun _ => hfresh) hT hI form
  | reasoning summary content => exact h.appendReasoning (fun _ => hfresh) hT hI summary content
  | upsertCurrent item => exact h.upsertCurrent (fun _ => hfresh) hT (.inl (by simp [HistoryOp.itemIds]))
  | upsertIn turnId item => exact h.upsertInTurnId (.inr hkept) (.inl (by simp [HistoryOp.itemIds]))
  | reviewMode turnId itemId form =>
    have hturn : ∀ id ∈ turnId, id ∈ knownTurnIds (ops ++ [.reviewMode turnId itemId form]) := by
      rintro id rfl
      simp [knownTurnIds, HistoryOp.turnIds]
    cases itemId with
    | some id =>
      have hname : (form.1 id).id ∈ (ops ++ [HistoryOp.reviewMode turnId (some id) form]).flatMap (·.itemIds) ∨
          ∃ n < b.nextItemIndex, (form.1 id).id = generatedItemId n := .inl (by simp [HistoryOp.itemIds, form.2])
      cases turnId with
      | none => exact h.upsertCurrent (fun _ => hfresh) hT hname
      | some turnId => exact h.upsertReviewMode hkept (hturn turnId rfl) hname
    | none =>
      have hname : (form.1 b.nextItemId).id ∈ (ops ++ [HistoryOp.reviewMode turnId none form]).flatMap (·.itemIds) ∨
          ∃ n < b.takeItemId.nextItemIndex, (form.1 b.nextItemId).id = generatedItemId n :=
        .inr ⟨b.nextItemIndex, Nat.lt_succ_self _, form.2 _⟩
      cases turnId with
      | none => exact h.takeItemId.upsertCurrent (fun _ => hfresh) hT hname
      | some turnId => exact h.takeItemId.upsertReviewMode hkept (hturn turnId rfl) hname
  | error payload =>
    simp only [HistoryOp.run, handleError]
    split
    · exact h.changeCurrentTurn hkept (by exact fun _ => rfl) (by exact fun _ => rfl)
    · exact ⟨h, hkept⟩
  | aborted payload => exact h.aborted hkept payload
  | started payload =>
    refine h.started hkept (fun hin => ?_) (by simp [knownTurnIds, HistoryOp.turnIds])
    rcases List.mem_append.1 (hnames hin) with hnamed | himplicit
    · exact hfits.1 hnamed
    · obtain ⟨n, -, heq⟩ := List.mem_map.1 himplicit
      exact hfits.2 n heq.symm
  | complete payload => exact h.complete hkept payload
  | compacted => exact h.compacted (fun _ => hfresh) hT
  | rollback numTurns => exact h.rollback hkept hempty numTurns

/-- A follower that is up to date after the records of these operations. -/
structure Following (ops : List HistoryOp) (s : ThreadHistoryBuilder × ThreadFollower) : Prop where
  next : s.1.nextRolloutIndex = ops.length
  idle : s.1.activeChangeSet = none
  follows : s.1.Follows s.2 (knownTurnIds ops) (ops.flatMap (·.itemIds))
  kept : s.1.IsKept

theorem following_start : Following [] ({}, {}) where
  next := rfl
  idle := rfl
  follows :=
    { shown := ⟨rfl, List.forall_mem_nil _, List.forall_mem_nil _⟩
      turnIds := List.nodup_nil
      turnNames := List.nil_subset _
      itemIds := fun _ h => nomatch h
      itemNames := fun _ h => nomatch h }
  kept := fun _ h => nomatch h

theorem Following.step {s} (h : Following ops s) (item : RolloutItem)
    (hfit : IdsFit (ops ++ [item.historyOp E D ops.length])) :
    Following (ops ++ [item.historyOp E D ops.length])
      (let (b, changes) := s.1.handleRolloutItemWithChanges E D item
       (b, s.2.apply changes)) := by
  obtain ⟨b, F⟩ := s
  have htracks : (b.withChanges (some {})).nextRolloutItem.Tracks F ops.length (knownTurnIds ops) (ops.flatMap (·.itemIds)) :=
    { current := h.next
      next := congrArg (· + 1) h.next
      follows := ⟨{}, rfl, by rw [ThreadFollower.apply_empty]; exact { h.follows with }⟩ }
  obtain ⟨hrun, hkept⟩ := run_tracks hfit htracks h.kept rfl
  obtain ⟨changes, hset, hfollows⟩ := hrun.follows
  have hhandle : (b.withChanges (some {})).handleRolloutItem E D item =
      (item.historyOp E D ops.length).run (b.withChanges (some {})).nextRolloutItem := by
    rw [handleRolloutItem_eq]
    exact congrArg (fun i => (item.historyOp E D i).run _) h.next
  simp only [handleRolloutItemWithChanges, collectChanges, hhandle, hset, Option.getD_some]
  exact
    { next := hrun.next.trans (by simp)
      idle := rfl
      follows := { hfollows with }
      kept := hkept }

/-- **A follower of every record** is up to date, and the builder is the one that collects nothing. -/
theorem followItems_following {items} (hfit : IdsFit (historyOps E D items)) :
    Following (historyOps E D items) (ThreadFollower.followItems E D ({}, {}) items) ∧
      (ThreadFollower.followItems E D ({}, {}) items).1 = ({} : ThreadHistoryBuilder).run E D items := by
  induction items using List.reverseRecOn with
  | nil => exact ⟨following_start, rfl⟩
  | append_singleton items item ih =>
    have hops : historyOps E D (items ++ [item]) =
        historyOps E D items ++ [item.historyOp E D (historyOps E D items).length] := by
      simp [historyOps, List.mapIdx_append]
    rw [hops] at hfit ⊢
    obtain ⟨hfollowing, hrun⟩ := ih hfit.of_append
    rw [run_append, ← hrun]
    simp only [ThreadFollower.followItems, List.foldl_append, List.foldl_cons, List.foldl_nil]
    exact ⟨hfollowing.step item hfit, handleRolloutItemWithChanges_fst hfollowing.idle item⟩

end ThreadHistoryBuilder

/-- **Change sets suffice.** After every batch a follower holds the builder's turns, with their items. -/
theorem follow_shows {E : Externals} {D : ItemDisplay} {batches : List (List RolloutItem)}
    (hfit : IdsFit (historyOps E D batches.flatten)) (k : Nat) :
    (ThreadFollower.follow E D (batches.take k)).2.Shows (ThreadFollower.follow E D (batches.take k)).1.allTurns ∧
      (ThreadFollower.follow E D (batches.take k)).1 = ({} : ThreadHistoryBuilder).run E D (batches.take k).flatten := by
  have hsplit : historyOps E D batches.flatten = historyOps E D (batches.take k).flatten ++
      (batches.drop k).flatten.mapIdx (fun i item => item.historyOp E D (i + (batches.take k).flatten.length)) := by
    rw [historyOps, historyOps, ← List.mapIdx_append, ← List.flatten_append, List.take_append_drop]
  rw [hsplit] at hfit
  obtain ⟨hfollowing, hrun⟩ := ThreadHistoryBuilder.followItems_following hfit.of_append
  rw [ThreadFollower.follow_eq]
  exact ⟨hfollowing.follows.shown, hrun⟩

theorem ne_numbered {label id} (h : ¬ label.toList <+: id.toList) (n : Nat) : id ≠ label ++ toString n := by
  rintro rfl
  exact h (by simp)

/-- Ids that fit, checked one operation after the other. -/
def FitAfter (before : List HistoryOp) : List HistoryOp → Prop
  | [] => True
  | op :: ops => op.Fits before ∧ FitAfter (before ++ [op]) ops

theorem FitAfter.fits {start ops} (h : FitAfter start ops) {before after} (heq : ops = before ++ op :: after) : op.Fits (start ++ before) := by
  induction before generalizing start ops with
  | nil =>
    subst heq
    simpa using h.1
  | cons first before ih =>
    subst heq
    simpa using ih h.2 rfl

/-- A command that ends in a later batch, a turn that comes and goes within a batch, and an implicit turn. -/
def followedBatches : List (List RolloutItem) :=
  let command : ExecCommandBeginEvent :=
    { callId := "c1", processId := none, turnId := "t1", command := ["ls"], cwd := "/", parsedCmd := "[]", source := "agent" }
  [[.start { turnId := "t1" }, .eventMsg (.userMessage { message := "hello".toList }), .eventMsg (.execCommandBegin command)],
    [.eventMsg (.execCommandEnd { command with aggregatedOutput := "a", exitCode := 0, durationMillis := 1, status := .completed }),
      .eventMsg (.turnComplete { turnId := "t1" }), .start { turnId := "t2" }, .eventMsg (.agentMessage { message := "two" }),
      .rollback 1],
    [.eventMsg (.agentMessage { message := "three" })]]

theorem follow_shows_followedBatches :
    (ThreadFollower.follow .plain .plain followedBatches).2.Shows
        (ThreadFollower.follow .plain .plain followedBatches).1.allTurns ∧
      (ThreadFollower.follow .plain .plain followedBatches).1.allTurns.map (·.id) = ["t1", "rollout-8"] := by
  have hfit : IdsFit (historyOps .plain .plain followedBatches.flatten) := by
    have hafter : FitAfter [] (historyOps .plain .plain followedBatches.flatten) := by
      refine ⟨⟨by decide, ?_⟩, trivial, ?_, ?_, trivial, ⟨by decide, ?_⟩, trivial, trivial, trivial, trivial⟩
      all_goals exact ne_numbered (by decide)
    exact fun before op after heq => hafter.fits heq
  exact ⟨(follow_shows hfit 3).1, by decide +kernel⟩

/-- The prompt markup of one hook run. -/
def hookedExternals : Externals :=
  { Externals.plain with
    parseHookPromptXml := fun text =>
      if text = "<hook_prompt hook_run_id=\"run\">go</hook_prompt>".toList then
        some { text := "go".toList, hookRunId := "run".toList }
      else none }

/-- A prompt that is completed before its message is recorded. -/
def promptedTurn : List RolloutItem :=
  [.start { turnId := "t1" },
    .eventMsg (.itemCompleted "t1" (.hookPrompt "h1" [{ text := "go".toList, hookRunId := "run".toList }])),
    .responseItem (.message (some "h1") "user" [.inputText "<hook_prompt hook_run_id=\"run\">go</hook_prompt>".toList] none none)]

/-- An explicit turn named like an implicit one, a turn started after a review
has named it, and a prompt that comes after its item: the builder holds two
turns, or two items, of one id. -/
theorem follow_shows_fails :
    (let items : List RolloutItem :=
      [.start { turnId := "rollout-2" }, .eventMsg (.turnComplete { turnId := "rollout-2" }),
        .eventMsg (.agentMessage { message := "x" })]
     (startedTurnIds items).Nodup ∧ (historyOps .plain .plain items).flatMap (·.itemIds) = [] ∧
      ¬ (ThreadFollower.follow .plain .plain [items]).2.Shows (ThreadFollower.follow .plain .plain [items]).1.allTurns) ∧
    (let items : List RolloutItem :=
      [.eventMsg (.enteredReviewMode (some "t1") (some "r1") none), .start { turnId := "t1" }]
     (startedTurnIds items).Nodup ∧ (historyOps .plain .plain items).flatMap (·.itemIds) = ["r1"] ∧
      ¬ (ThreadFollower.follow .plain .plain [items]).2.Shows (ThreadFollower.follow .plain .plain [items]).1.allTurns) ∧
    ((startedTurnIds promptedTurn).Nodup ∧ (historyOps hookedExternals .plain promptedTurn).flatMap (·.itemIds) = ["h1", "h1"] ∧
      ¬ (ThreadFollower.follow hookedExternals .plain [promptedTurn]).2.Shows
        (ThreadFollower.follow hookedExternals .plain [promptedTurn]).1.allTurns) := by
  refine ⟨⟨by decide, by decide, fun h => absurd h.turnsEq (by decide +kernel)⟩,
    ⟨by decide, by decide, fun h => absurd h.turnsEq (by decide +kernel)⟩,
    ⟨by decide, by decide +kernel, fun h => absurd h.itemsEq (by decide +kernel)⟩⟩

end Codex
