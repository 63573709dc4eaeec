/-
Forking at a turn (`core/src/thread_rollout_truncation.rs`): the prefix of a
rollout that ends after a turn, or before it. The cut is found in the raw
records while the turn is looked up in the history that is left after the
rollbacks; that the turns below a turn that is left are left as well, and
unchanged, is the stack discipline of `TurnStack`.
-/
import Codex.TurnStack
import Codex.RollbackFacts

namespace Codex

inductive CodexErr where
  | invalidRequest (message : String)
  deriving DecidableEq

def RolloutItem.isTurnStart : RolloutItem → Bool
  | .eventMsg (.turnStarted _) => true
  | _ => false

def RolloutItem.isStartOf (turnId : String) : RolloutItem → Bool
  | .eventMsg (.turnStarted event) => event.turnId == turnId
  | _ => false

section
variable (E : Externals) (D : ItemDisplay)

def truncateRolloutAfterTurnId (items : List RolloutItem) (lastTurnId : String) :
    Except CodexErr (List RolloutItem) :=
  let turns := buildTurnsFromRolloutItems E D items
  match turns.find? (·.id == lastTurnId) with
  | none =>
    .error (.invalidRequest ("lastTurnId '" ++ lastTurnId ++ "' was not found in the source thread"))
  | some turn =>
    match items.findIdx? (·.isStartOf lastTurnId) with
    | none =>
      .error (.invalidRequest
        ("lastTurnId '" ++ lastTurnId ++ "' is not a persisted canonical turn in the source thread"))
    | some targetStartIndex =>
      if turn.status = .inProgress then
        .error (.invalidRequest ("lastTurnId '" ++ lastTurnId ++ "' identifies an in-progress turn"))
      else
        let cutIndex := match (items.drop (targetStartIndex + 1)).findIdx? (·.isTurnStart) with
          | some index => targetStartIndex + 1 + index
          | none => items.length
        .ok (items.take cutIndex)

def truncateRolloutBeforeTurnId (items : List RolloutItem) (beforeTurnId : String) :
    Except CodexErr (List RolloutItem) :=
  let turns := buildTurnsFromRolloutItems E D items
  if !turns.any (·.id == beforeTurnId) then
    .error (.invalidRequest ("beforeTurnId '" ++ beforeTurnId ++ "' was not found in the source thread"))
  else match items.findIdx? (·.isStartOf beforeTurnId) with
  | none =>
    .error (.invalidRequest
      ("beforeTurnId '" ++ beforeTurnId ++ "' is not a persisted canonical turn in the source thread"))
  | some cutIndex => .ok (items.take cutIndex)

/-- A marker of the rollout removed the turn from the history. -/
def RolledBack (items : List RolloutItem) (turnId : String) : Prop :=
  ∃ before numTurns after, items = before ++ .rollback numTurns :: after ∧
    turnId ∈ (buildTurnsFromRolloutItems E D before).map (·.id) ∧
    turnId ∉ (buildTurnsFromRolloutItems E D (before ++ [.rollback numTurns])).map (·.id)

end

variable {E : Externals} {D : ItemDisplay}

/-! ## The turns of a run -/

theorem startedTurnIds_append (items extra : List RolloutItem) :
    startedTurnIds (items ++ extra) = startedTurnIds items ++ startedTurnIds extra := List.filterMap_append

theorem startedTurnIds_cons (item : RolloutItem) (items : List RolloutItem) :
    startedTurnIds (item :: items) = startedTurnIds [item] ++ startedTurnIds items :=
  startedTurnIds_append [item] items

variable {p : Place} {item : RolloutItem} {items extra : List RolloutItem} {i : Nat} {old new : List Turn}
  {turnId : String}

variable {p' : Place}

theorem placeAfter_cons (h : placeAfter E D p (item :: items) = some p') :
    ∃ q, (item.historyOp E D 0).place p = some q ∧ placeAfter E D q items = some p' := by
  simpa [placeAfter, Option.bind_eq_some_iff] using h

theorem placeAfter_append (h : placeAfter E D p (items ++ extra) = some p') :
    ∃ q, placeAfter E D p items = some q ∧ placeAfter E D q extra = some p' := by
  simpa [placeAfter, Option.bind_eq_some_iff] using h

variable {b : ThreadHistoryBuilder}

namespace ThreadHistoryBuilder

/-- The turns of the builder and the turns still to be started are all distinct. -/
def Fresh (b : ThreadHistoryBuilder) (items : List RolloutItem) : Prop :=
  (b.allTurns.map (·.id) ++ startedTurnIds items).Nodup

/-- **The effects of a record**: a turn put on top, turns taken off, or at most the turn on top changed. -/
theorem effect_cases (h : (item.historyOp E D i).Effect p old new) :
    (∃ turn : Turn, startedTurnIds [item] = [turn.id] ∧ new = old ++ [turn]) ∨
    (∃ numTurns, item = .rollback numTurns ∧ new = old.take (old.length - numTurns.toNat)) ∨
    startedTurnIds [item] = [] ∧ (new = old ∨ ∃ below turn turn', p.isTurn turn.id = true ∧ turn'.id = turn.id ∧
      old = below ++ [turn] ∧ new = below ++ [turn']) := by
  cases hb : (item.historyOp E D i).isBracket with
  | true =>
    rcases RolloutItem.of_historyOp_isBracket hb with ⟨payload, rfl⟩ | ⟨numTurns, rfl⟩
    · obtain ⟨turn, hid, rfl⟩ := h
      exact .inl ⟨turn, by simp [startedTurnIds, hid], rfl⟩
    · exact .inr (.inl ⟨numTurns, rfl, h⟩)
  | false =>
    refine .inr (.inr ⟨?_, ?_⟩)
    · cases item with
      | eventMsg event => cases event <;> first | rfl | cases hb
      | _ => rfl
    · generalize item.historyOp E D i = op at h hb
      cases op <;> first | exact h | cases hb

/-- The ids of the turns, from the records alone. -/
def stackIds (ids : List String) : RolloutItem → List String
  | .eventMsg (.threadRolledBack numTurns) => ids.take (ids.length - numTurns.toNat)
  | item => ids ++ startedTurnIds [item]

theorem stackIds_isPrefix (ids : List String) (item : RolloutItem) :
    stackIds ids item <+: ids ++ startedTurnIds [item] := by
  unfold stackIds
  split
  · exact (List.take_prefix ..).trans (List.prefix_append ..)
  · exact List.prefix_rfl

theorem effect_ids
    (h : (item.historyOp E D i).Effect p old new) : new.map (·.id) = stackIds (old.map (·.id)) item := by
  have hother (hne : ∀ numTurns, item ≠ .rollback numTurns) (ids : List String) :
      stackIds ids item = ids ++ startedTurnIds [item] := by
    cases item with
    | eventMsg event => cases event <;> first | rfl | exact absurd rfl (hne _)
    | _ => rfl
  cases hb : (item.historyOp E D i).isBracket with
  | true =>
    rcases RolloutItem.of_historyOp_isBracket hb with ⟨payload, rfl⟩ | ⟨numTurns, rfl⟩
    · obtain ⟨turn, hid, rfl⟩ := h
      simp [stackIds, startedTurnIds, hid]
    · have hnew : new = old.take (old.length - numTurns.toNat) := h
      simp [hnew, stackIds]
  | false =>
    rw [hother (by rintro numTurns rfl; cases hb)]
    rcases effect_cases h with ⟨turn, hstart, rfl⟩ | ⟨numTurns, rfl, -⟩ |
      ⟨hnone, rfl | ⟨below, turn, turn', -, hid, rfl, rfl⟩⟩
    · simp [hstart]
    · cases hb
    · simp [hnone]
    · simp [hnone, hid]

theorem effect_ids_isPrefix
    (h : (item.historyOp E D i).Effect p old new) : new.map (·.id) <+: old.map (·.id) ++ startedTurnIds [item] := by
  rw [effect_ids h]
  exact stackIds_isPrefix ..

theorem Fresh.step {b' : ThreadHistoryBuilder}
    (h : b.Fresh (item :: items)) (he : (item.historyOp E D i).Effect p b.allTurns b'.allTurns) : b'.Fresh items := by
  unfold Fresh at h ⊢
  rw [startedTurnIds_cons, ← List.append_assoc] at h
  exact h.sublist ((effect_ids_isPrefix he).sublist.append_right _)

/-- The first record of a run. -/
theorem run_cons
    (hat : b.At p) (hp : placeAfter E D p (item :: items) = some p') (hfresh : b.Fresh (item :: items ++ extra)) :
    ∃ q, (item.historyOp E D 0).place p = some q ∧ placeAfter E D q items = some p' ∧
      (b.handleRolloutItem E D item).At q ∧ (b.handleRolloutItem E D item).Fresh (items ++ extra) ∧
      (item.historyOp E D b.nextRolloutIndex).Effect p b.allTurns (b.handleRolloutItem E D item).allTurns := by
  obtain ⟨q, hq, hrest⟩ := placeAfter_cons hp
  have hstart : ∀ id ∈ startedTurnIds [item], id ∉ b.allTurns.map (·.id) := by
    intro id hid hmem
    rw [Fresh, List.cons_append, startedTurnIds_cons] at hfresh
    exact (List.nodup_append.1 hfresh).2.2 id hmem id (List.mem_append_left _ hid) rfl
  obtain ⟨hat', heffect⟩ := handleRolloutItem_effect hat hq hstart
  exact ⟨q, hq, hrest, hat', hfresh.step heffect, heffect⟩

/-- **The rule of runs**: what every record preserves of the place and the turns holds after the run. -/
theorem run_rule {M : Place → List Turn → Prop}
    (hat : b.At p) (hp : placeAfter E D p items = some p') (hfresh : b.Fresh (items ++ extra))
    (hstep : ∀ item ∈ items, ∀ i q q' old new, (item.historyOp E D 0).place q = some q' →
      (item.historyOp E D i).Effect q old new → (old.map (·.id)).Nodup → M q old → M q' new)
    (h : M p b.allTurns) :
    (b.run E D items).At p' ∧ (b.run E D items).Fresh extra ∧ M p' (b.run E D items).allTurns := by
  induction items generalizing b p with
  | nil =>
    cases hp
    exact ⟨hat, hfresh, h⟩
  | cons item items ih =>
    obtain ⟨q, hq, hrest, hat', hfresh', heffect⟩ := run_cons hat hp hfresh
    refine ih hat' hrest hfresh' (fun i hi => hstep i (by simp [hi])) ?_
    exact hstep item (by simp) _ _ _ _ _ hq heffect (List.nodup_append.1 hfresh).1 h

theorem run_ids (hat : b.At p) (hp : placeAfter E D p items = some p') (hfresh : b.Fresh (items ++ extra)) :
    (b.run E D items).allTurns.map (·.id) = items.foldl stackIds (b.allTurns.map (·.id)) := by
  induction items generalizing b p with
  | nil => rfl
  | cons item items ih =>
    obtain ⟨q, -, hrest, hat', hfresh', heffect⟩ := run_cons hat hp hfresh
    exact (ih hat' hrest hfresh').trans (by rw [effect_ids heffect]; rfl)

theorem Fresh.left (h : b.Fresh (items ++ extra)) : b.Fresh items := by
  unfold Fresh at h ⊢
  rw [startedTurnIds_append, ← List.append_assoc] at h
  exact (List.nodup_append.1 h).1

theorem finish_eq (hat : b.At p) : b.finish = b.allTurns :=
  (finishCurrentTurn_turns hat.kept).1

/-! ## A turn and what is below it -/

/-- The turn is gone, or it still stands on `base` and satisfies `Q`. -/
def StandsOn (base : List Turn) (turnId : String) (Q : Turn → Prop) (turns : List Turn) : Prop :=
  turnId ∉ turns.map (·.id) ∨ ∃ turn above, turns = base ++ turn :: above ∧ turn.id = turnId ∧ Q turn

theorem place_isTurn {q q'}
    (h : (item.historyOp E D 0).place q = some q') (hid : turnId ∉ startedTurnIds [item])
    (hq : q.isTurn turnId = false) : q'.isTurn turnId = false := by
  cases hb : (item.historyOp E D 0).isBracket with
  | true =>
    rcases RolloutItem.of_historyOp_isBracket hb with ⟨payload, rfl⟩ | ⟨numTurns, rfl⟩
    · cases h
      exact beq_false_of_ne fun heq => hid (by simp [startedTurnIds, heq])
    · cases h
      rfl
  | false =>
    generalize item.historyOp E D 0 = op at h hb
    cases op with
    | complete payload =>
      obtain ⟨hturn, ⟨⟩⟩ := Option.ite_none_right_eq_some.1 h
      by_contra hc
      rw [Bool.not_eq_false] at hc
      rw [← beq_iff_eq.1 hc, hturn] at hq
      cases hq
    | reviewMode turnId' itemId form =>
      cases turnId' with
      | none => obtain ⟨-, ⟨⟩⟩ := Option.ite_none_right_eq_some.1 h; exact hq
      | some turnId' => obtain ⟨-, ⟨⟩⟩ := Option.ite_none_right_eq_some.1 h; exact hq
    | skip | error payload => cases h; exact hq
    | started | rollback => cases hb
    | _ => obtain ⟨-, ⟨⟩⟩ := Option.ite_none_right_eq_some.1 h; exact hq

theorem StandsOn.step {base} {Q : Turn → Prop} {q}
    (h : StandsOn base turnId Q old) (he : (item.historyOp E D i).Effect q old new)
    (hnodup : (old.map (·.id)).Nodup) (hid : turnId ∉ startedTurnIds [item])
    (hQ : (∀ t t' : Turn, Q t → Q t') ∨ q.isTurn turnId = false) : StandsOn base turnId Q new := by
  rcases h with hgone | ⟨turn, above, rfl, hturn, hq⟩
  · -- A turn that is gone is not started again.
    exact .inl fun hmem => (List.mem_append.1 ((effect_ids_isPrefix he).subset hmem)).elim hgone hid
  · rcases effect_cases he with ⟨top, -, rfl⟩ | ⟨numTurns, -, rfl⟩ |
      ⟨-, rfl | ⟨below, top, top', hat, htop, hold, rfl⟩⟩
    · exact .inr ⟨turn, above ++ [top], by simp, hturn, hq⟩
    · -- A rollback keeps the turn with all that is below it, or takes it off.
      generalize hm : (base ++ turn :: above).length - numTurns.toNat = m
      by_cases hlt : base.length < m
      · obtain ⟨k, rfl⟩ : ∃ k, m = base.length + (k + 1) := ⟨m - base.length - 1, by omega⟩
        exact .inr ⟨turn, above.take k, by rw [List.take_length_add_append, List.take_succ_cons], hturn, hq⟩
      · left
        rw [List.take_append_of_le_length (by omega)]
        intro hmem
        rw [List.map_append, List.nodup_append] at hnodup
        rw [List.map_take] at hmem
        exact hnodup.2.2 turnId (List.mem_of_mem_take hmem) turnId (by simp [hturn]) rfl
    · exact .inr ⟨turn, above, rfl, hturn, hq⟩
    · rcases List.eq_nil_or_concat above with rfl | ⟨above, last, rfl⟩
      · obtain ⟨rfl, ⟨⟩⟩ := List.append_inj' hold rfl
        refine .inr ⟨top', [], rfl, htop.trans hturn, ?_⟩
        rcases hQ with hQ | hQ
        · exact hQ turn top' hq
        · rw [← hturn, hat] at hQ
          cases hQ
      · rw [List.concat_eq_append, ← List.cons_append, ← List.append_assoc] at hold
        obtain ⟨rfl, -⟩ := List.append_inj' hold rfl
        exact .inr ⟨turn, above ++ [top'], by simp, hturn, hq⟩

/-- **A turn keeps standing on the same turns** while others come and go. -/
theorem run_standsOn {base} {Q : Turn → Prop} (hat : b.At p) (hp : placeAfter E D p items = some p')
    (hfresh : b.Fresh items) (hid : turnId ∉ startedTurnIds items)
    (hQ : (∀ t t' : Turn, Q t → Q t') ∨ p.isTurn turnId = false) (h : StandsOn base turnId Q b.allTurns) :
    (b.run E D items).At p' ∧ StandsOn base turnId Q (b.run E D items).allTurns := by
  let M (q : Place) (turns : List Turn) : Prop :=
    StandsOn base turnId Q turns ∧ ((∀ t t' : Turn, Q t → Q t') ∨ q.isTurn turnId = false)
  have hnot (item : RolloutItem) (hi : item ∈ items) : turnId ∉ startedTurnIds [item] := by
    intro hmem
    obtain ⟨before, after, rfl⟩ := List.append_of_mem hi
    rw [startedTurnIds_append, startedTurnIds_cons] at hid
    exact hid (by simp [hmem])
  have hstep : ∀ item ∈ items, ∀ i q q' old new, (item.historyOp E D 0).place q = some q' →
      (item.historyOp E D i).Effect q old new → (old.map (·.id)).Nodup → M q old → M q' new := by
    rintro item hi i q q' old new hq he hnodup ⟨hstands, hQ⟩
    exact ⟨hstands.step he hnodup (hnot item hi) hQ, hQ.imp_right (place_isTurn hq (hnot item hi))⟩
  have hfresh' : b.Fresh (items ++ []) := by rwa [List.append_nil]
  obtain ⟨hat', -, hM, -⟩ := run_rule hat hp hfresh' hstep ⟨h, hQ⟩
  exact ⟨hat', hM⟩

theorem run_gone (hat : b.At p)
    (hp : placeAfter E D p items = some p') (hfresh : b.Fresh items) (hid : turnId ∉ startedTurnIds items)
    (h : turnId ∉ b.allTurns.map (·.id)) : turnId ∉ (b.run E D items).allTurns.map (·.id) := by
  have hgone : StandsOn [] turnId (fun _ => False) b.allTurns := .inl h
  rcases (run_standsOn hat hp hfresh hid (.inl fun _ _ h => h) hgone).2 with h | ⟨-, -, -, -, h⟩
  · exact h
  · exact h.elim

theorem run_isPrefix (hat : b.At p)
    (hp : placeAfter E D p items = some p') (hfresh : b.Fresh (items ++ extra)) (hnone : startedTurnIds items = []) :
    (b.run E D items).At p' ∧ (b.run E D items).Fresh extra ∧
      (b.run E D items).allTurns.map (·.id) <+: b.allTurns.map (·.id) := by
  refine run_rule (M := fun _ turns => turns.map (·.id) <+: b.allTurns.map (·.id)) hat hp hfresh ?_ List.prefix_rfl
  intro item hi i q q' old new _ he _ hM
  have hitem : startedTurnIds [item] = [] := by
    obtain ⟨before, after, rfl⟩ := List.append_of_mem hi
    rw [startedTurnIds_append, startedTurnIds_cons] at hnone
    simp only [List.append_eq_nil_iff] at hnone
    exact hnone.2.1
  have hids := effect_ids_isPrefix he
  rw [hitem, List.append_nil] at hids
  exact hids.trans hM

/-- The turns of a run are among those it began with and those it started. -/
theorem run_started (hat : b.At p)
    (hp : placeAfter E D p items = some p') (hfresh : b.Fresh (items ++ extra)) :
    (b.run E D items).At p' ∧ (b.run E D items).Fresh extra ∧
      (b.run E D items).allTurns.map (·.id) ⊆ b.allTurns.map (·.id) ++ startedTurnIds items := by
  refine run_rule (M := fun _ turns => turns.map (·.id) ⊆ b.allTurns.map (·.id) ++ startedTurnIds items) hat hp hfresh
    ?_ (List.subset_append_left ..)
  intro item hi i q q' old new _ he _ hM
  refine List.Subset.trans (effect_ids_isPrefix he).subset (List.append_subset.2 ⟨hM, fun id hid => ?_⟩)
  obtain ⟨before, after, rfl⟩ := List.append_of_mem hi
  rw [startedTurnIds_append, startedTurnIds_cons]
  simp [hid]

end ThreadHistoryBuilder

open ThreadHistoryBuilder

/-! ## The cut -/

def RolloutItem.start (payload : TurnStartedEvent) : RolloutItem := .eventMsg (.turnStarted payload)

theorem run_cut (hb : TurnsBracketed E D (items ++ extra)) (hd : (startedTurnIds (items ++ extra)).Nodup) :
    let b := ({} : ThreadHistoryBuilder).run E D items
    ∃ q p, b.At q ∧ b.Fresh extra ∧ placeAfter E D q extra = some p ∧
      buildTurnsFromRolloutItems E D items = b.allTurns ∧ b.allTurns.map (·.id) ⊆ startedTurnIds items := by
  obtain ⟨p, hp⟩ := Option.isSome_iff_exists.1 hb
  obtain ⟨q, hq, hrest⟩ := placeAfter_append hp
  have hat : ({} : ThreadHistoryBuilder).At .between := rfl
  have hfresh : ({} : ThreadHistoryBuilder).Fresh (items ++ extra) := hd
  obtain ⟨hat', hfresh', hids⟩ := run_started hat hq hfresh
  exact ⟨q, p, hat', hfresh', hrest, finish_eq hat', hids⟩

theorem buildTurns_append (items extra : List RolloutItem) :
    buildTurnsFromRolloutItems E D (items ++ extra) =
      ((({} : ThreadHistoryBuilder).run E D items).run E D extra).finish := by
  rw [buildTurnsFromRolloutItems, run_append]

variable {payload : TurnStartedEvent}

theorem run_start (hb : TurnsBracketed E D (items ++ .start payload :: extra))
    (hd : (startedTurnIds (items ++ .start payload :: extra)).Nodup) :
    let b := ({} : ThreadHistoryBuilder).run E D (items ++ [.start payload])
    ∃ turn p, b.At (.inTurn payload.turnId true) ∧ b.Fresh extra ∧
      placeAfter E D (.inTurn payload.turnId true) extra = some p ∧
      b.allTurns = buildTurnsFromRolloutItems E D items ++ [turn] ∧ turn.id = payload.turnId ∧
      payload.turnId ∉ startedTurnIds extra := by
  obtain ⟨q, p, hat, hfresh, hp, hbuild, -⟩ := run_cut hb hd
  obtain ⟨q', hq', hrest⟩ := placeAfter_cons hp
  cases hq'
  have hids : startedTurnIds (.start payload :: extra) = payload.turnId :: startedTurnIds extra := rfl
  have hstart : ∀ id ∈ startedTurnIds [.start payload],
      id ∉ (({} : ThreadHistoryBuilder).run E D items).allTurns.map (·.id) := by
    intro id hid hmem
    cases List.mem_singleton.1 hid
    rw [Fresh, hids] at hfresh
    exact (List.nodup_append.1 hfresh).2.2 _ hmem _ (by simp) rfl
  have hplace : (RolloutItem.historyOp E D 0 (.start payload)).place q = some (.inTurn payload.turnId true) := rfl
  obtain ⟨hat', heffect⟩ := handleRolloutItem_effect hat hplace hstart
  have hfresh' := hfresh.step heffect
  obtain ⟨turn, hid, hturns⟩ := heffect
  refine ⟨turn, p, ?_, ?_, hrest, ?_, hid, ?_⟩
  · rw [run_append]
    exact hat'
  · rw [run_append]
    exact hfresh'
  · rw [run_append, hbuild]
    exact hturns
  · rw [Fresh, hids] at hfresh
    exact (List.nodup_cons.1 (List.nodup_append.1 hfresh).2.1).1

theorem buildTurns_before (hb : TurnsBracketed E D (items ++ .start payload :: extra))
    (hd : (startedTurnIds (items ++ .start payload :: extra)).Nodup)
    (hleft : payload.turnId ∈ (buildTurnsFromRolloutItems E D (items ++ .start payload :: extra)).map (·.id)) :
    ∃ turn above, buildTurnsFromRolloutItems E D (items ++ .start payload :: extra) =
      buildTurnsFromRolloutItems E D items ++ turn :: above ∧ turn.id = payload.turnId := by
  obtain ⟨turn, p, hat, hfresh, hp, hturns, hid, hnot⟩ := run_start hb hd
  have hstands : StandsOn (buildTurnsFromRolloutItems E D items) payload.turnId (fun _ => True)
      (({} : ThreadHistoryBuilder).run E D (items ++ [.start payload])).allTurns := .inr ⟨turn, [], hturns, hid, trivial⟩
  obtain ⟨hat', hfinal⟩ := run_standsOn hat hp hfresh hnot (.inl fun _ _ _ => trivial) hstands
  have hbuild : buildTurnsFromRolloutItems E D (items ++ .start payload :: extra) =
      ((({} : ThreadHistoryBuilder).run E D (items ++ [.start payload])).run E D extra).allTurns := by
    rw [← finish_eq hat', ← buildTurns_append, ← List.append_cons]
  rw [hbuild] at hleft ⊢
  rcases hfinal with hgone | ⟨turn', above, hfinal, hid', -⟩
  · exact absurd hleft hgone
  · exact ⟨turn', above, hfinal, hid'⟩

/-- The turns of the whole rollout, at the next start after a turn that is left. -/
theorem buildTurns_after {own rest} (hb : TurnsBracketed E D (items ++ .start payload :: (own ++ rest)))
    (hd : (startedTurnIds (items ++ .start payload :: (own ++ rest))).Nodup) (hown : startedTurnIds own = [])
    (hrest : rest = [] ∨ ∃ next rest', rest = .start next :: rest')
    (hleft : payload.turnId ∈ (buildTurnsFromRolloutItems E D (items ++ .start payload :: (own ++ rest))).map (·.id)) :
    ∃ turn above, buildTurnsFromRolloutItems E D (items ++ .start payload :: own) =
        buildTurnsFromRolloutItems E D items ++ [turn] ∧ turn.id = payload.turnId ∧
      buildTurnsFromRolloutItems E D (items ++ .start payload :: (own ++ rest)) =
        buildTurnsFromRolloutItems E D (items ++ .start payload :: own) ++ above := by
  obtain ⟨turn, p, hat, hfresh, hp, hturns, hid, hnot⟩ := run_start hb hd
  obtain ⟨q, hq, hafter⟩ := placeAfter_append hp
  obtain ⟨hatOwn, hfreshOwn, hids⟩ := run_isPrefix hat hq hfresh hown
  rw [startedTurnIds_append, hown, List.nil_append] at hnot
  have hbuild : buildTurnsFromRolloutItems E D (items ++ .start payload :: own) =
      ((({} : ThreadHistoryBuilder).run E D (items ++ [.start payload])).run E D own).allTurns := by
    rw [← finish_eq hatOwn, ← buildTurns_append, ← List.append_cons]
  have hwhole : buildTurnsFromRolloutItems E D (items ++ .start payload :: (own ++ rest)) =
      (((({} : ThreadHistoryBuilder).run E D (items ++ [.start payload])).run E D own).run E D rest).finish := by
    rw [List.append_cons, buildTurns_append, run_append]
  have hstands : StandsOn (buildTurnsFromRolloutItems E D items) payload.turnId (fun _ => True)
      (({} : ThreadHistoryBuilder).run E D (items ++ [.start payload])).allTurns := .inr ⟨turn, [], hturns, hid, trivial⟩
  rcases (run_standsOn hat hq hfresh.left (by simp [hown]) (.inl fun _ _ _ => trivial) hstands).2 with
    hgone | ⟨turn', above, hturn', hid', -⟩
  · -- Taken off again before the next start, the turn would not be left.
    rw [hwhole] at hleft
    obtain ⟨hat', -, -⟩ := run_started hatOwn hafter (by rwa [List.append_nil] : Fresh _ (rest ++ []))
    rw [finish_eq hat'] at hleft
    exact absurd hleft (run_gone hatOwn hafter hfreshOwn hnot hgone)
  · have habove : above = [] := by
      have hlen := hids.length_le
      rw [hturn', hturns] at hlen
      simp only [List.length_map, List.length_append, List.length_cons, List.length_nil] at hlen
      exact List.length_eq_zero_iff.1 (by omega)
    subst habove
    rw [← hbuild] at hturn'
    rcases hrest with rfl | ⟨next, rest', rfl⟩
    · refine ⟨turn', [], hturn', hid', ?_⟩
      simp
    · rw [show items ++ .start payload :: (own ++ .start next :: rest') =
        (items ++ .start payload :: own) ++ .start next :: rest' by simp] at hb hd hleft ⊢
      obtain ⟨turnNext, p', hatNext, hfreshNext, hpNext, hturnsNext, -, -⟩ := run_start hb hd
      have hne : next.turnId ≠ payload.turnId ∧ payload.turnId ∉ startedTurnIds rest' := by
        have : startedTurnIds (.start next :: rest') = next.turnId :: startedTurnIds rest' := rfl
        rw [this, List.mem_cons, not_or] at hnot
        exact ⟨fun h => hnot.1 h.symm, hnot.2⟩
      have hstandsNext : StandsOn (buildTurnsFromRolloutItems E D items) payload.turnId (· = turn')
          (({} : ThreadHistoryBuilder).run E D ((items ++ .start payload :: own) ++ [.start next])).allTurns :=
        .inr ⟨turn', [turnNext], by rw [hturnsNext, hturn']; simp, hid', rfl⟩
      obtain ⟨hat', hfinal⟩ := run_standsOn hatNext hpNext hfreshNext hne.2 (.inr (beq_false_of_ne hne.1)) hstandsNext
      have hbuildNext : buildTurnsFromRolloutItems E D ((items ++ .start payload :: own) ++ .start next :: rest') =
          ((({} : ThreadHistoryBuilder).run E D ((items ++ .start payload :: own) ++ [.start next])).run E D rest').allTurns := by
        rw [← finish_eq hat', ← buildTurns_append, ← List.append_cons]
      rw [hbuildNext] at hleft ⊢
      rcases hfinal with hgone | ⟨_, above, hfinal, -, rfl⟩
      · exact absurd hleft hgone
      · exact ⟨_, above, hturn', hid', by rw [hfinal, hturn']; simp⟩

/-- The start a search for it finds, and what is before it. -/
theorem split_at_start {index : Nat} (h : items.findIdx? (·.isStartOf turnId) = some index) :
    ∃ payload, payload.turnId = turnId ∧ items = items.take index ++ .start payload :: items.drop (index + 1) := by
  obtain ⟨hlt, hstart, -⟩ := List.findIdx?_eq_some_iff_getElem.1 h
  have hsplit : items = items.take index ++ items[index] :: items.drop (index + 1) := by
    rw [← List.drop_eq_getElem_cons hlt, List.take_append_drop]
  cases hitem : items[index] with
  | eventMsg event =>
    cases event with
    | turnStarted payload =>
      rw [hitem] at hstart hsplit
      exact ⟨payload, beq_iff_eq.1 hstart, hsplit⟩
    | _ => rw [hitem] at hstart; cases hstart
  | _ => rw [hitem] at hstart; cases hstart

theorem split_at_next (items : List RolloutItem) :
    ∃ own rest, items = own ++ rest ∧ startedTurnIds own = [] ∧ (rest = [] ∨ ∃ next rest', rest = .start next :: rest') ∧
      own.length = (match items.findIdx? (·.isTurnStart) with
        | some index => index
        | none => items.length) := by
  have hquiet (own : List RolloutItem) (h : ∀ item ∈ own, item.isTurnStart = false) : startedTurnIds own = [] := by
    refine List.filterMap_eq_nil_iff.2 fun item hi => ?_
    have := h item hi
    cases item with
    | eventMsg event => cases event <;> first | rfl | cases this
    | _ => rfl
  cases hidx : items.findIdx? (·.isTurnStart) with
  | none => exact ⟨items, [], by simp, hquiet items (by simpa using hidx), .inl rfl, rfl⟩
  | some index =>
    obtain ⟨hlt, hstart, hbefore⟩ := List.findIdx?_eq_some_iff_getElem.1 hidx
    refine ⟨items.take index, items.drop index, (List.take_append_drop ..).symm, hquiet _ ?_, .inr ?_, by simp; omega⟩
    · intro item hi
      obtain ⟨j, hj, rfl⟩ := List.mem_take_iff_getElem.1 hi
      simpa using hbefore j (by omega)
    · rw [List.drop_eq_getElem_cons hlt]
      cases hitem : items[index] with
      | eventMsg event =>
        cases event with
        | turnStarted payload => exact ⟨payload, _, rfl⟩
        | _ => rw [hitem] at hstart; cases hstart
      | _ => rw [hitem] at hstart; cases hstart

theorem mem_of_find {turns : List Turn} {turn : Turn} (h : turns.find? (·.id == turnId) = some turn) :
    turnId ∈ turns.map (·.id) :=
  List.mem_map.2 ⟨turn, List.mem_of_find?_eq_some h, by simpa using List.find?_some h⟩

theorem after_ok {cut : List RolloutItem} (h : truncateRolloutAfterTurnId E D items turnId = .ok cut) :
    turnId ∈ (buildTurnsFromRolloutItems E D items).map (·.id) ∧ ∃ payload before own rest, payload.turnId = turnId ∧
      items = before ++ .start payload :: (own ++ rest) ∧ cut = before ++ .start payload :: own ∧
      startedTurnIds own = [] ∧ (rest = [] ∨ ∃ next rest', rest = .start next :: rest') := by
  simp only [truncateRolloutAfterTurnId] at h
  split at h
  · cases h
  · next turn hfind =>
    split at h
    · cases h
    · next index hidx =>
      split at h
      · cases h
      · obtain ⟨payload, hid, hitems⟩ := split_at_start hidx
        obtain ⟨own, rest, hown, hnone, hrest, hlen⟩ := split_at_next (items.drop (index + 1))
        refine ⟨mem_of_find hfind, payload, items.take index, own, rest, hid, by rw [← hown]; exact hitems, ?_, hnone, hrest⟩
        have hlt : index < items.length := (List.findIdx?_eq_some_iff_getElem.1 hidx).1
        have hcut : cut = items.take (index + 1 + own.length) := by
          rw [hlen]
          cases hnext : (items.drop (index + 1)).findIdx? (·.isTurnStart) with
          | none =>
            rw [hnext] at h
            cases h
            simp only [List.length_drop]
            rw [show index + 1 + (items.length - (index + 1)) = items.length by omega]
          | some next =>
            rw [hnext] at h
            cases h
            rfl
        have hpre : items = (items.take index ++ .start payload :: own) ++ rest := by
          rw [List.append_assoc, List.cons_append, ← hown]
          exact hitems
        have hlength : (items.take index ++ .start payload :: own).length = index + 1 + own.length := by
          simp only [List.length_append, List.length_take, List.length_cons]
          omega
        rw [hcut, ← hlength]
        exact (congrArg (List.take _) hpre).trans List.take_left

theorem before_ok {cut} (h : truncateRolloutBeforeTurnId E D items turnId = .ok cut) :
    turnId ∈ (buildTurnsFromRolloutItems E D items).map (·.id) ∧ ∃ payload rest, payload.turnId = turnId ∧
      items = cut ++ .start payload :: rest := by
  simp only [truncateRolloutBeforeTurnId] at h
  split at h
  · cases h
  · next hany =>
    split at h
    · cases h
    · next index hidx =>
      obtain ⟨payload, hid, hitems⟩ := split_at_start hidx
      cases h
      refine ⟨?_, payload, _, hid, hitems⟩
      simpa using hany

/-- **Forking at a turn shows the turns up to it**, or strictly before it; a turn that was rolled back is refused. -/
theorem truncateRollout_turns {items : List RolloutItem} (hb : TurnsBracketed E D items)
    (hd : (startedTurnIds items).Nodup) (turnId : String) :
    ((buildTurnsFromRolloutItems E D items).map (·.id)).Nodup ∧
    (∀ cut, truncateRolloutAfterTurnId E D items turnId = .ok cut →
      ∃ above, buildTurnsFromRolloutItems E D items = buildTurnsFromRolloutItems E D cut ++ above ∧
        (buildTurnsFromRolloutItems E D cut).getLast?.map (·.id) = some turnId) ∧
    (∀ cut, truncateRolloutBeforeTurnId E D items turnId = .ok cut →
      ∃ turn above, buildTurnsFromRolloutItems E D items = buildTurnsFromRolloutItems E D cut ++ turn :: above ∧
        turn.id = turnId) ∧
    (RolledBack E D items turnId → (∃ err, truncateRolloutAfterTurnId E D items turnId = .error err) ∧
      ∃ err, truncateRolloutBeforeTurnId E D items turnId = .error err) := by
  refine ⟨?_, ?_, ?_, ?_⟩
  · have hb' : TurnsBracketed E D (items ++ []) := by rwa [List.append_nil]
    have hd' : (startedTurnIds (items ++ [])).Nodup := by rwa [List.append_nil]
    obtain ⟨q, p, -, hfresh, -, hbuild, -⟩ := run_cut hb' hd'
    rw [hbuild]
    exact (List.nodup_append.1 hfresh).1
  · intro cut hcut
    obtain ⟨hleft, payload, before, own, rest, rfl, rfl, rfl, hown, hrest⟩ := after_ok hcut
    obtain ⟨turn, above, hends, hid, hall⟩ := buildTurns_after hb hd hown hrest hleft
    exact ⟨above, hall, by rw [hends]; simp [hid]⟩
  · intro cut hcut
    obtain ⟨hleft, payload, rest, rfl, rfl⟩ := before_ok hcut
    exact buildTurns_before hb hd hleft
  · rintro ⟨before, numTurns, after, rfl, hwas, hgone⟩
    have hnot : turnId ∉ (buildTurnsFromRolloutItems E D (before ++ .rollback numTurns :: after)).map (·.id) := by
      obtain ⟨q, p, -, hfresh, -, hbuild, hids⟩ := run_cut hb hd
      rw [List.append_cons] at hb hd ⊢
      obtain ⟨q', p', hat', hfresh', hp', hbuild', -⟩ := run_cut hb hd
      have hafter : turnId ∉ startedTurnIds after := by
        intro hmem
        rw [startedTurnIds_append, startedTurnIds_append] at hd
        exact (List.nodup_append.1 hd).2.2 turnId (List.mem_append_left _ (hids (hbuild ▸ hwas))) turnId hmem rfl
      rw [hbuild'] at hgone
      rw [buildTurns_append]
      obtain ⟨hat'', -, -⟩ := run_started hat' hp' (by rwa [List.append_nil] : Fresh _ (after ++ []))
      rw [finish_eq hat'']
      exact run_gone hat' hp' hfresh' hafter hgone
    constructor
    · cases hres : truncateRolloutAfterTurnId E D (before ++ .rollback numTurns :: after) turnId with
      | error err => exact ⟨err, rfl⟩
      | ok cut => exact absurd (after_ok hres).1 hnot
    · cases hres : truncateRolloutBeforeTurnId E D (before ++ .rollback numTurns :: after) turnId with
      | error err => exact ⟨err, rfl⟩
      | ok cut => exact absurd (before_ok hres).1 hnot

/-- A finished turn with a message of the agent. -/
def answeredTurn (turnId message : String) : List RolloutItem :=
  [.start { turnId }, .eventMsg (.agentMessage { message }), .eventMsg (.turnComplete { turnId })]

/-- Three turns, the second of them rolled back. -/
def forkedThread : List RolloutItem :=
  answeredTurn "t1" "one" ++ answeredTurn "t2" "two" ++ .rollback 1 :: answeredTurn "t3" "three"

theorem truncateRollout_turns_forkedThread :
    (∃ cut, truncateRolloutAfterTurnId .plain .plain forkedThread "t1" = .ok cut ∧
      ∃ above, buildTurnsFromRolloutItems .plain .plain forkedThread =
        buildTurnsFromRolloutItems .plain .plain cut ++ above) ∧
    ∃ err, truncateRolloutBeforeTurnId .plain .plain forkedThread "t2" = .error err := by
  have hb : TurnsBracketed .plain .plain forkedThread := by decide +kernel
  have hd : (startedTurnIds forkedThread).Nodup := by decide +kernel
  constructor
  · refine ⟨answeredTurn "t1" "one", rfl, ?_⟩
    obtain ⟨above, habove, -⟩ := (truncateRollout_turns hb hd "t1").2.1 _ rfl
    exact ⟨above, habove⟩
  · refine ((truncateRollout_turns hb hd "t2").2.2.2 ?_).2
    exact ⟨answeredTurn "t1" "one" ++ answeredTurn "t2" "two", 1, answeredTurn "t3" "three", rfl, by decide +kernel,
      by decide +kernel⟩

end Codex
