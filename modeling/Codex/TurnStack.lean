/-
The history builder as a stack of turns. In a rollout whose turns are all
started explicitly and whose records stand with their turns, a record does one
of four things to the list of turns: it puts a turn on top, changes the turn
on top, takes turns off, or nothing. `run_effect` is that list of effects.
-/
import Codex.HistoryOps

namespace Codex

/-- Where a rollout stands: between turns, or among the records of a turn that is open or complete. -/
inductive Place where
  | between
  | inTurn (turnId : String) (isOpen : Bool)
  deriving DecidableEq

namespace Place

def isTurn (p : Place) (turnId : String) : Bool :=
  match p with
  | .between => false
  | .inTurn id _ => id == turnId

def isOpen : Place → Bool
  | .between => false
  | .inTurn _ isOpen => isOpen

end Place

/-- The place after a record, when the record belongs where it stands: the
records that name a turn among the records of that turn, and those that belong
to the open turn before the turn is complete. -/
def HistoryOp.place (p : Place) : HistoryOp → Option Place
  | .skip | .error _ => some p
  | .push _ | .pushNext _ | .userMessage _ | .reasoning .. | .upsertCurrent _ | .reviewMode none .. | .compacted =>
    if p.isOpen then some p else none
  | .upsertIn turnId _ | .reviewMode (some turnId) .. => if p.isTurn turnId then some p else none
  | .aborted payload => if payload.turnId.all p.isTurn then some p else none
  | .complete payload => if p.isTurn payload.turnId then some (.inTurn payload.turnId false) else none
  | .started payload => some (.inTurn payload.turnId true)
  | .rollback _ => some .between

/-- The place after the records, each of which belongs where it stands. -/
def placeAfter (E : Externals) (D : ItemDisplay) (p : Place) (items : List RolloutItem) : Option Place :=
  items.foldlM (fun p item => (item.historyOp E D 0).place p) p

/-- All turns are started explicitly and every record stands with its turn. -/
def TurnsBracketed (E : Externals) (D : ItemDisplay) (items : List RolloutItem) : Prop :=
  (placeAfter E D .between items).isSome = true

instance (E : Externals) (D : ItemDisplay) (items : List RolloutItem) : Decidable (TurnsBracketed E D items) :=
  inferInstanceAs (Decidable (_ = true))

/-- The turns that are started, in their order. -/
def startedTurnIds (items : List RolloutItem) : List String := items.filterMap fun item => match item with
  | .eventMsg (.turnStarted payload) => some payload.turnId
  | _ => none

/-- What an operation does to the list of turns. -/
def HistoryOp.Effect (p : Place) (old new : List Turn) : HistoryOp → Prop
  | .started payload => ∃ turn : Turn, turn.id = payload.turnId ∧ new = old ++ [turn]
  | .rollback numTurns => new = old.take (old.length - numTurns.toNat)
  | _ => new = old ∨ ∃ below turn turn', p.isTurn turn.id = true ∧ turn'.id = turn.id ∧
      old = below ++ [turn] ∧ new = below ++ [turn']

variable {E : Externals} {D : ItemDisplay}

/-- Where a record stands does not depend on its position. -/
theorem historyOp_place (item : RolloutItem) (i : Nat) (p : Place) :
    (item.historyOp E D i).place p = (item.historyOp E D 0).place p := by
  cases item with
  | responseItem item =>
    cases item with
    | message id role content phase metadata =>
      simp only [RolloutItem.historyOp]
      split
      · rfl
      · cases parseHookPromptFragments E content <;> rfl
    | _ => rfl
  | _ => rfl

variable {p : Place} {below : List Turn} {f : Turn → Turn}

namespace ThreadHistoryBuilder

/-- A builder whose rollout stands at a place. -/
def At (b : ThreadHistoryBuilder) : Place → Prop
  | .between => b.currentTurn = none
  | .inTurn turnId true =>
    (∃ turn, b.currentTurn = some turn ∧ turn.id = turnId ∧ turn.openedExplicitly = true) ∧ ∀ t ∈ b.turns, t.id ≠ turnId
  | .inTurn turnId false => b.currentTurn = none ∧
      ∃ below turn, b.turns = below ++ [turn] ∧ turn.id = turnId ∧ ∀ t ∈ below, t.id ≠ turnId

theorem At.kept {b : ThreadHistoryBuilder} (h : b.At p) : ∀ turn ∈ b.currentTurn, turn.isKept = true := by
  intro turn hturn
  match p, h with
  | .between, h => cases h ▸ hturn
  | .inTurn _ true, ⟨⟨turn', hcur, _, hex⟩, _⟩ =>
    rw [hcur] at hturn
    cases hturn
    simp [PendingTurn.isKept, hex]
  | .inTurn _ false, ⟨hcur, _⟩ => cases hcur ▸ hturn

theorem updateTurn_append {turnId} (h : ∀ t ∈ below, t.id ≠ turnId) {turn : Turn}
    (hid : turn.id = turnId) (f : Turn → Turn) : updateTurn turnId f (below ++ [turn]) = below ++ [f turn] := by
  induction below with
  | nil => simp [updateTurn, hid]
  | cons t below ih =>
    rw [List.cons_append, updateTurn, if_neg (h t (by simp)), ih fun s hs => h s (by simp [hs])]
    rfl

/-- A change of the open turn alone. -/
def EditsOpen (b b' : ThreadHistoryBuilder) (turn : PendingTurn) : Prop :=
  b'.turns = b.turns ∧ ∃ turn', b'.currentTurn = some turn' ∧ turn'.id = turn.id ∧
    turn'.openedExplicitly = turn.openedExplicitly

section edits
variable {b : ThreadHistoryBuilder} {turn : PendingTurn} (hcur : b.currentTurn = some turn)
include hcur

theorem changeItem_edits (hf : ∀ t, (f t).id = t.id) (item : ThreadItem) :
    EditsOpen b (b.changeItemInCurrentTurn f item) turn := by
  rw [changeItemInCurrentTurn_open hcur]
  exact ⟨rfl, turn.update f, rfl, hf _, rfl⟩

theorem changeCurrentTurn_edits (hf : ∀ t, (f t).id = t.id) : EditsOpen b (b.changeCurrentTurn f) turn := by
  rw [changeCurrentTurn_open hcur]
  exact ⟨rfl, turn.update f, rfl, hf _, rfl⟩

theorem pushItem_edits (item : ThreadItem) : EditsOpen b (b.pushItemInCurrentTurn item) turn := by
  rw [pushItemInCurrentTurn, ensureTurn_open hcur]
  exact changeItem_edits hcur (by exact fun _ => rfl) item

theorem upsertItem_edits (item : ThreadItem) : EditsOpen b (b.upsertItemInCurrentTurn item) turn := by
  rw [upsertItemInCurrentTurn, ensureTurn_open hcur]
  exact changeItem_edits hcur (by exact fun _ => rfl) item

theorem upsertItemInTurnId_edits (item : ThreadItem) : EditsOpen b (b.upsertItemInTurnId turn.id item) turn := by
  rw [upsertItemInTurnId, if_pos (by simp [currentTurnMatches, hcur])]
  exact changeItem_edits hcur (by exact fun _ => rfl) item

theorem appendReasoning_edits (summary content : List String) :
    EditsOpen b (b.appendReasoning summary content) turn := by
  simp only [appendReasoning, ensureTurn_open hcur]
  split
  · exact changeItem_edits hcur (by exact fun _ => rfl) _
  · exact pushItem_edits (b := b.takeItemId) hcur _

theorem upsertReviewModeItem_edits {turnId} (h : ∀ id ∈ turnId, id = turn.id) (item : ThreadItem) :
    EditsOpen b (b.upsertReviewModeItem turnId item) turn := by
  cases turnId with
  | none => exact upsertItem_edits hcur item
  | some id =>
    obtain rfl := h id rfl
    simp only [upsertReviewModeItem]
    rw [if_neg (by simp [currentTurnMatches, hcur])]
    exact upsertItemInTurnId_edits hcur item

theorem handleCompacted_edits : EditsOpen b b.handleCompacted turn := by
  simp only [handleCompacted, ensureTurn_open hcur]
  exact ⟨rfl, { turn with sawCompaction := true }, by simp [hcur], rfl, rfl⟩

end edits

theorem EditsOpen.effect {b b' turn} (hcur : b.currentTurn = some turn)
    (hex : turn.openedExplicitly = true) (hfresh : ∀ t ∈ b.turns, t.id ≠ turn.id) (h : EditsOpen b b' turn) :
    b'.At (.inTurn turn.id true) ∧ ∃ below t t', (Place.inTurn turn.id true).isTurn t.id = true ∧ t'.id = t.id ∧
      b.allTurns = below ++ [t] ∧ b'.allTurns = below ++ [t'] := by
  obtain ⟨hturns, turn', hcur', hid, hex'⟩ := h
  refine ⟨⟨⟨turn', hcur', hid, hex'.trans hex⟩, hturns ▸ hfresh⟩, b.turns, turn.toTurn, turn'.toTurn, by simp [Place.isTurn], hid, ?_, ?_⟩
  · exact allTurns_open hcur
  · rw [allTurns_open hcur', hturns]

theorem userMessage_explicit {b turn} (hcur : b.currentTurn = some turn)
    (hex : turn.openedExplicitly = true) (form : ItemForm) :
    (HistoryOp.userMessage form).run b = (HistoryOp.pushNext form).run b := by
  simp only [HistoryOp.run]
  rw [if_neg (by simp [hcur, hex])]

theorem handleTurnStarted_effect {b : ThreadHistoryBuilder} (hat : b.At p)
    {payload : TurnStartedEvent} (hfresh : payload.turnId ∉ b.allTurns.map (·.id)) :
    (b.handleTurnStarted payload).At (.inTurn payload.turnId true) ∧
      ∃ turn : Turn, turn.id = payload.turnId ∧ (b.handleTurnStarted payload).allTurns = b.allTurns ++ [turn] := by
  obtain ⟨hturns, hcur⟩ := finishCurrentTurn_turns hat.kept
  refine ⟨⟨⟨_, rfl, rfl, rfl⟩, fun t ht hid => hfresh ?_⟩,
    { id := payload.turnId, status := .inProgress, startedAt := payload.startedAt }, rfl, ?_⟩
  · have ht' : t ∈ b.finishCurrentTurn.turns := ht
    exact List.mem_map.2 ⟨t, hturns ▸ ht', hid⟩
  · rw [← hturns]
    rfl

theorem handleThreadRollback_effect {b : ThreadHistoryBuilder} (hat : b.At p) (numTurns : UInt32) :
    (b.handleThreadRollback numTurns).At .between ∧
      (b.handleThreadRollback numTurns).allTurns = b.allTurns.take (b.allTurns.length - numTurns.toNat) := by
  obtain ⟨hturns, hcur⟩ := finishCurrentTurn_turns hat.kept
  have hcur' : (b.handleThreadRollback numTurns).currentTurn = none := hcur
  refine ⟨hcur', ?_⟩
  rw [allTurns_none hcur', ← hturns]
  simp only [handleThreadRollback, recordRemovedTurnIds_turns, ge_iff_le]
  split
  · next h => rw [Nat.sub_eq_zero_of_le h, List.take_zero]
  · rfl

theorem handleTurnComplete_open {b : ThreadHistoryBuilder} {turn : PendingTurn} (hcur : b.currentTurn = some turn)
    (hex : turn.openedExplicitly = true) {payload : TurnCompleteEvent} (hid : payload.turnId = turn.id) :
    (b.handleTurnComplete payload).currentTurn = none ∧
      (b.handleTurnComplete payload).turns = b.turns ++ [turn.toTurn.markCompleted payload] := by
  rw [handleTurnComplete, if_pos (by simp [currentTurnMatches, hcur, hid]), changeCurrentTurn_open hcur,
    finishCurrentTurn_open rfl (by simp [PendingTurn.isKept, PendingTurn.update, hex])]
  exact ⟨rfl, rfl⟩

/-- **What an operation does while its turn is open.** -/
theorem run_open {b : ThreadHistoryBuilder} {turn : PendingTurn} (hcur : b.currentTurn = some turn)
    (hex : turn.openedExplicitly = true) (hfresh : ∀ t ∈ b.turns, t.id ≠ turn.id) {op : HistoryOp} {p : Place}
    (h : op.place (.inTurn turn.id true) = some p)
    (hstart : ∀ payload, op = .started payload → payload.turnId ∉ b.allTurns.map (·.id)) :
    (op.run b).At p ∧ op.Effect (.inTurn turn.id true) b.allTurns (op.run b).allTurns := by
  have hat : b.At (.inTurn turn.id true) := ⟨⟨turn, hcur, rfl, hex⟩, hfresh⟩
  have hedit {b' : ThreadHistoryBuilder} (he : EditsOpen b b' turn) := he.effect hcur hex hfresh
  have hself {turnId : String} (hid : (Place.inTurn turn.id true).isTurn turnId = true) : turnId = turn.id :=
    (beq_iff_eq.1 hid).symm
  cases op with
  | skip =>
    cases h
    exact ⟨hat, .inl rfl⟩
  | push item =>
    cases h
    exact (hedit (pushItem_edits hcur item)).imp_right .inr
  | pushNext form =>
    cases h
    exact (hedit (pushItem_edits (b := b.takeItemId) hcur _)).imp_right .inr
  | userMessage form =>
    cases h
    rw [userMessage_explicit hcur hex]
    exact (hedit (pushItem_edits (b := b.takeItemId) hcur _)).imp_right .inr
  | reasoning summary content =>
    cases h
    exact (hedit (appendReasoning_edits hcur summary content)).imp_right .inr
  | upsertCurrent item =>
    cases h
    exact (hedit (upsertItem_edits hcur item)).imp_right .inr
  | compacted =>
    cases h
    exact (hedit (handleCompacted_edits hcur)).imp_right .inr
  | upsertIn turnId item =>
    obtain ⟨hid, ⟨⟩⟩ := Option.ite_none_right_eq_some.1 h
    obtain rfl := hself hid
    exact (hedit (upsertItemInTurnId_edits hcur item)).imp_right .inr
  | reviewMode turnId itemId form =>
    have hid : (∀ id ∈ turnId, id = turn.id) ∧ p = .inTurn turn.id true := by
      cases turnId with
      | none => cases h; simp
      | some id =>
        obtain ⟨hid, ⟨⟩⟩ := Option.ite_none_right_eq_some.1 h
        simp [hself hid]
    obtain ⟨hid, rfl⟩ := hid
    cases itemId with
    | none => exact (hedit (upsertReviewModeItem_edits (b := b.takeItemId) hcur hid _)).imp_right .inr
    | some itemId => exact (hedit (upsertReviewModeItem_edits hcur hid _)).imp_right .inr
  | error payload =>
    cases h
    simp only [HistoryOp.run, handleError]
    split
    · exact (hedit (changeCurrentTurn_edits hcur (by exact fun _ => rfl))).imp_right .inr
    · exact ⟨hat, .inl rfl⟩
  | aborted payload =>
    obtain ⟨hid, ⟨⟩⟩ := Option.ite_none_right_eq_some.1 h
    have hrun : (HistoryOp.aborted payload).run b = b.changeCurrentTurn (·.abort payload) := by
      simp only [HistoryOp.run, handleTurnAborted]
      cases hp : payload.turnId with
      | none => rfl
      | some id =>
        rw [hp] at hid
        exact if_pos (by simp [currentTurnMatches, hcur, hself hid])
    rw [hrun]
    exact (hedit (changeCurrentTurn_edits hcur (by exact fun _ => rfl))).imp_right .inr
  | started payload =>
    cases h
    exact handleTurnStarted_effect hat (hstart payload rfl)
  | complete payload =>
    obtain ⟨hid, ⟨⟩⟩ := Option.ite_none_right_eq_some.1 h
    obtain ⟨hnone, hturns⟩ := handleTurnComplete_open hcur hex (hself hid)
    refine ⟨⟨hnone, b.turns, turn.toTurn.markCompleted payload, hturns, (hself hid).symm, ?_⟩, .inr
      ⟨b.turns, turn.toTurn, turn.toTurn.markCompleted payload, by simp [Place.isTurn], rfl, allTurns_open hcur, ?_⟩⟩
    · rw [hself hid]
      exact hfresh
    · exact (allTurns_none hnone).trans hturns
  | rollback numTurns =>
    cases h
    exact handleThreadRollback_effect hat numTurns

/-- A change of the last finished turn alone. -/
theorem At.editFinished {b b' : ThreadHistoryBuilder} {turn : Turn} (hturns : b.turns = below ++ [turn])
    (hcur : b.currentTurn = none) (hfresh : ∀ t ∈ below, t.id ≠ turn.id)
    (hcur' : b'.currentTurn = b.currentTurn) (hturns' : b'.turns = updateTurn turn.id f b.turns)
    (hf : (f turn).id = turn.id) :
    b'.At (.inTurn turn.id false) ∧ ∃ below t t', (Place.inTurn turn.id false).isTurn t.id = true ∧ t'.id = t.id ∧
      b.allTurns = below ++ [t] ∧ b'.allTurns = below ++ [t'] := by
  have hcur'' : b'.currentTurn = none := hcur'.trans hcur
  have hturns'' : b'.turns = below ++ [f turn] := by rw [hturns', hturns, updateTurn_append hfresh rfl]
  refine ⟨⟨hcur'', below, f turn, hturns'', hf, hfresh⟩, below, turn, f turn, by simp [Place.isTurn], hf, ?_, ?_⟩
  · rw [allTurns_none hcur, hturns]
  · rw [allTurns_none hcur'', hturns'']

/-- **What an operation does after its turn is complete.** -/
theorem run_finished {b : ThreadHistoryBuilder} {turn : Turn} (hturns : b.turns = below ++ [turn])
    (hcur : b.currentTurn = none) (hfresh : ∀ t ∈ below, t.id ≠ turn.id) {op : HistoryOp}
    (h : op.place (.inTurn turn.id false) = some p)
    (hstart : ∀ payload, op = .started payload → payload.turnId ∉ b.allTurns.map (·.id)) :
    (op.run b).At p ∧ op.Effect (.inTurn turn.id false) b.allTurns (op.run b).allTurns := by
  have hat : b.At (.inTurn turn.id false) := ⟨hcur, below, turn, hturns, rfl, hfresh⟩
  have hself {turnId : String} (hid : (Place.inTurn turn.id false).isTurn turnId = true) : turnId = turn.id :=
    (beq_iff_eq.1 hid).symm
  have hmatch : b.currentTurnMatches turn.id = false := by simp [currentTurnMatches, hcur]
  have hhas : b.hasFinishedTurn turn.id = true := by simp [hasFinishedTurn, hturns]
  have hupsert (b' : ThreadHistoryBuilder) (hb : b'.turns = b.turns) (hc : b'.currentTurn = b.currentTurn)
      (item : ThreadItem) :
      (b'.upsertItemInTurnId turn.id item).turns = updateTurn turn.id (·.upsertItem item) b.turns ∧
        (b'.upsertItemInTurnId turn.id item).currentTurn = b.currentTurn := by
    rw [upsertItemInTurnId, if_neg (by simp [currentTurnMatches, hc, hcur]),
      if_pos (by simp [hasFinishedTurn, hb, hturns])]
    exact ⟨by simp [hb], by simp [hc]⟩
  have hchange (f : Turn → Turn) : (b.changeFinishedTurn turn.id f).turns = updateTurn turn.id f b.turns ∧
      (b.changeFinishedTurn turn.id f).currentTurn = b.currentTurn := by
    have hfind : b.turns.find? (·.id == turn.id) = some turn := by
      rw [hturns, List.find?_append, List.find?_eq_none.2 (by simpa using hfresh)]
      simp
    simp [changeFinishedTurn, hfind]
  cases op with
  | skip =>
    cases h
    exact ⟨hat, .inl rfl⟩
  | push item | pushNext form | userMessage form | reasoning summary content | upsertCurrent item | compacted => cases h
  | upsertIn turnId item =>
    obtain ⟨hid, ⟨⟩⟩ := Option.ite_none_right_eq_some.1 h
    obtain rfl := hself hid
    obtain ⟨ht, hc⟩ := hupsert b rfl rfl item
    exact (At.editFinished hturns hcur hfresh hc ht rfl).imp_right .inr
  | reviewMode turnId itemId form =>
    cases turnId with
    | none => cases h
    | some turnId =>
      obtain ⟨hid, ⟨⟩⟩ := Option.ite_none_right_eq_some.1 h
      obtain rfl := hself hid
      have hrun : (HistoryOp.reviewMode (some turn.id) itemId form).run b =
          (b.itemIdOrNext itemId).1.upsertItemInTurnId turn.id (form.1 (b.itemIdOrNext itemId).2) := by
        have hhas' : (b.itemIdOrNext itemId).1.hasFinishedTurn turn.id = true := by
          cases itemId <;> exact hhas
        simp only [HistoryOp.run, upsertReviewModeItem]
        rw [if_neg (by simp [hhas'])]
      rw [hrun]
      obtain ⟨ht, hc⟩ := hupsert (b.itemIdOrNext itemId).1 (by cases itemId <;> rfl) (by cases itemId <;> rfl)
        (form.1 (b.itemIdOrNext itemId).2)
      exact (At.editFinished hturns hcur hfresh hc ht rfl).imp_right .inr
  | error payload =>
    cases h
    have hrun : (HistoryOp.error payload).run b = b := by
      simp only [HistoryOp.run, handleError, changeCurrentTurn_none hcur, ite_self]
    rw [hrun]
    exact ⟨hat, .inl rfl⟩
  | aborted payload =>
    obtain ⟨hid, ⟨⟩⟩ := Option.ite_none_right_eq_some.1 h
    simp only [HistoryOp.run, handleTurnAborted]
    cases hp : payload.turnId with
    | none =>
      simp only [changeCurrentTurn_none hcur]
      exact ⟨hat, .inl rfl⟩
    | some id =>
      rw [hp] at hid
      obtain rfl := hself hid
      simp only [hmatch, hhas, if_pos, Bool.false_eq_true, if_false]
      obtain ⟨ht, hc⟩ := hchange (·.abort payload)
      exact (At.editFinished hturns hcur hfresh hc ht rfl).imp_right .inr
  | started payload =>
    cases h
    exact handleTurnStarted_effect hat (hstart payload rfl)
  | complete payload =>
    obtain ⟨hid, ⟨⟩⟩ := Option.ite_none_right_eq_some.1 h
    have hpid := hself hid
    simp only [HistoryOp.run, handleTurnComplete, hpid, hmatch, hhas, if_pos, Bool.false_eq_true, if_false]
    obtain ⟨ht, hc⟩ := hchange (·.markCompleted payload)
    exact (At.editFinished hturns hcur hfresh hc ht rfl).imp_right .inr
  | rollback numTurns =>
    cases h
    exact handleThreadRollback_effect hat numTurns

theorem run_between {b : ThreadHistoryBuilder} (hcur : b.currentTurn = none) {op : HistoryOp}
    (h : op.place .between = some p)
    (hstart : ∀ payload, op = .started payload → payload.turnId ∉ b.allTurns.map (·.id)) :
    (op.run b).At p ∧ op.Effect .between b.allTurns (op.run b).allTurns := by
  have hat : b.At .between := hcur
  cases op with
  | skip =>
    cases h
    exact ⟨hat, .inl rfl⟩
  | error payload =>
    cases h
    have hrun : (HistoryOp.error payload).run b = b := by
      simp only [HistoryOp.run, handleError, changeCurrentTurn_none hcur, ite_self]
    rw [hrun]
    exact ⟨hat, .inl rfl⟩
  | aborted payload =>
    obtain ⟨hid, ⟨⟩⟩ := Option.ite_none_right_eq_some.1 h
    cases hp : payload.turnId with
    | none =>
      have hrun : (HistoryOp.aborted payload).run b = b := by
        simp only [HistoryOp.run, handleTurnAborted, hp, changeCurrentTurn_none hcur]
      rw [hrun]
      exact ⟨hat, .inl rfl⟩
    | some id => rw [hp] at hid; cases hid
  | started payload =>
    cases h
    exact handleTurnStarted_effect hat (hstart payload rfl)
  | rollback numTurns =>
    cases h
    exact handleThreadRollback_effect hat numTurns
  | reviewMode turnId itemId form => cases turnId <;> cases h
  | _ => cases h

/-- **One record of a rollout.** -/
theorem handleRolloutItem_effect {b : ThreadHistoryBuilder} {p' : Place} (hat : b.At p) {item : RolloutItem}
    (h : (item.historyOp E D 0).place p = some p')
    (hstart : ∀ id ∈ startedTurnIds [item], id ∉ b.allTurns.map (·.id)) :
    (b.handleRolloutItem E D item).At p' ∧
      (item.historyOp E D b.nextRolloutIndex).Effect p b.allTurns (b.handleRolloutItem E D item).allTurns := by
  rw [handleRolloutItem_eq]
  rw [← historyOp_place item b.nextRolloutIndex] at h
  have hstart' (payload : TurnStartedEvent) (hop : item.historyOp E D b.nextRolloutIndex = .started payload) :
      payload.turnId ∉ b.nextRolloutItem.allTurns.map (·.id) := by
    refine hstart payload.turnId ?_
    rcases RolloutItem.of_historyOp_isBracket (by rw [hop]; rfl :
      (item.historyOp E D b.nextRolloutIndex).isBracket = true) with ⟨payload', rfl⟩ | ⟨numTurns, rfl⟩
    · cases hop
      simp [startedTurnIds]
    · cases hop
  match p, hat with
  | .between, hcur => exact run_between (b := b.nextRolloutItem) hcur h hstart'
  | .inTurn _ true, ⟨⟨turn, hcur, rfl, hex⟩, hfresh⟩ =>
    exact run_open (b := b.nextRolloutItem) hcur hex hfresh h hstart'
  | .inTurn _ false, ⟨hcur, below, turn, hturns, rfl, hfresh⟩ =>
    exact run_finished (b := b.nextRolloutItem) hturns hcur hfresh h hstart'

end ThreadHistoryBuilder

end Codex
