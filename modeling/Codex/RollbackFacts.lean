/-
Undoing turns. A rollout whose last records are user turns and a rollback marker over all
of them scans like the rollout without them, except for what is left to replay
(`scanRollout_rollback`); the replay then records the turns and drops them again.
-/
import Codex.ScanFacts

namespace Codex

variable {E : Externals}

/-- A rollback marker. -/
def RolloutItem.rollback (numTurns : UInt32) : RolloutItem := .eventMsg (.threadRolledBack numTurns)

open ReplayState

/-- **The scan of a rollout and of what was rolled back after it.** -/
theorem scanRollout_rollback (R : List RolloutItem) {turns : List BracketedTurn}
    (huser : ∀ turn ∈ turns, turn.isUserTurn E = true) (hlen : turns.length < 2 ^ 32) :
    let extra := turns.flatMap BracketedTurn.items ++ [.rollback turns.length.toUInt32]
    ∃ left, scanRollout E (R ++ extra) = (scanRollout E R).withSuffix left ∧
      ((R.any (·.isReplacement) = true ∧ left = (scanRollout E R).rolloutSuffix ++ extra) ∨
        (R.any (·.isReplacement) = false ∧ (scanRollout E R).rolloutSuffix = R ∧
          Leaves (turns.flatMap BracketedTurn.items) [.rollback turns.length.toUInt32] (R ++ extra) left)) := by
  intro extra
  let s₀ : ReplayState := { rolloutSuffix := R }
  have hs₀ : s₀.NoBase := ⟨rfl, rfl⟩
  have hrev : (R ++ extra).reverse =
      .rollback turns.length.toUInt32 :: ((turns.flatMap BracketedTurn.items).reverse ++ R.reverse) := by
    simp [extra]
  have hnum : turns.length.toUInt32.toNat = turns.length := by
    simp [Nat.toUInt32, UInt32.toNat_ofNat_of_lt' (show turns.length < UInt32.size from hlen)]
  have hobs : (s₀.withSuffix (R ++ extra)).observe E (.rollback turns.length.toUInt32) [] =
      (s₀.withPending turns.length).withSuffix (R ++ extra) := by
    have : min (0 + turns.length) usizeMax = turns.length := by
      simp only [usizeMax]
      omega
    simp only [RolloutItem.rollback, observe, hnum]
    rw [show (s₀.withSuffix (R ++ extra)).pendingRollbackTurns = 0 from rfl, this]
    rfl
  obtain ⟨x, hx, hleft⟩ := scan_rolledBack (E := E)
    (s := (s₀.withPending turns.length).withSuffix (R ++ extra)) rfl rfl huser (Nat.zero_add _).symm
    [.rollback turns.length.toUInt32] R.reverse
  have hfull : scanRollout E (R ++ extra) =
      ((s₀.withSuffix x).scan E ([] ++ extra) R.reverse).finalizeTaken := by
    have hstart : ({ rolloutSuffix := R ++ extra } : ReplayState) = s₀.withSuffix (R ++ extra) := rfl
    rw [scanRollout, hrev, hstart, scan_cons, hobs, withSuffix_isResolved, withPending_isResolved,
      if_neg (by simp [not_isResolved_of_noBase hs₀]), hx]
    rfl
  have hR : scanRollout E R = (s₀.scan E [] R.reverse).finalizeTaken := rfl
  cases hrep : R.any (·.isReplacement) with
  | true =>
    obtain ⟨pre, hpre⟩ := scan_frame_of_replacement (E := E) hs₀
      (show R.reverse.any (·.isReplacement) = true by simpa using hrep) []
    have hself := hpre R []
    rw [show s₀.withSuffix R = s₀ from rfl, List.append_nil, List.append_nil] at hself
    refine ⟨pre ++ extra, ?_, .inl ⟨rfl, ?_⟩⟩
    · rw [hfull, hpre, finalizeTaken_frame, hR]
    · rw [hR, finalizeTaken_rolloutSuffix, hself]
      rfl
  | false =>
    have hnone : ∀ item ∈ R.reverse, item.isReplacement = false := by
      intro item hi
      simpa using List.any_eq_false.1 hrep item (List.mem_reverse.1 hi)
    have hself := scan_frame_of_not_replacement (E := E) (s := s₀) hnone [] [] R
    rw [show s₀.withSuffix R = s₀ from rfl] at hself
    refine ⟨x, ?_, .inr ⟨rfl, ?_, hleft⟩⟩
    · rw [hfull, scan_frame_of_not_replacement hnone [], finalizeTaken_frame, hR]
    · rw [hR, finalizeTaken_rolloutSuffix, hself]
      rfl

/-! ## The history -/

/-- The items a list of records puts before the model. -/
def modelItems (items : List RolloutItem) : List ResponseItem :=
  items.filterMap fun item => match item with
    | .responseItem responseItem => some responseItem
    | .interAgentCommunication communication => some communication.toModelInputItem
    | _ => none

/-- What the history records of them. -/
def recordedItems (E : Externals) (items : List ResponseItem) : List ResponseItem :=
  (items.filter isApiMessage).map (processItem E)

theorem recordItem_items (history : ContextManager) (item : ResponseItem) :
    (history.recordItem E item).items = history.items ++ recordedItems E [item] := by
  cases h : isApiMessage item <;> simp [ContextManager.recordItem, recordedItems, h]

/-- Records that are neither compactions nor rollback markers only append. -/
theorem run_append_only {items}
    (h : ∀ item ∈ items, item.isCompacted = false ∧ ∀ n, item ≠ .rollback n) (r : ForwardReplay) :
    (r.run E items).history.items = r.history.items ++ recordedItems E (modelItems items) ∧
      (r.run E items).sawLegacyCompactionWithoutReplacementHistory =
        r.sawLegacyCompactionWithoutReplacementHistory := by
  induction items generalizing r with
  | nil => simp [ForwardReplay.run, modelItems, recordedItems]
  | cons item items ih =>
    have hstep : (r.step E item).history.items = r.history.items ++ recordedItems E (modelItems [item]) ∧
        (r.step E item).sawLegacyCompactionWithoutReplacementHistory =
          r.sawLegacyCompactionWithoutReplacementHistory := by
      obtain ⟨hc, hr⟩ := h item (by simp)
      cases item with
      | responseItem i => exact ⟨recordItem_items _ _, rfl⟩
      | interAgentCommunication c => exact ⟨recordItem_items _ _, rfl⟩
      | compacted c => cases hc
      | eventMsg e =>
        cases e with
        | threadRolledBack n => exact absurd rfl (hr n)
        | _ => exact ⟨(List.append_nil _).symm, rfl⟩
      | _ => exact ⟨(List.append_nil _).symm, rfl⟩
    have hsplit : modelItems (item :: items) = modelItems [item] ++ modelItems items := by
      rw [modelItems, modelItems, modelItems, ← List.filterMap_append, List.singleton_append]
    obtain ⟨h1, h2⟩ := ih (fun i hi => h i (by simp [hi])) (r.step E item)
    refine ⟨?_, h2.trans hstep.2⟩
    rw [hsplit]
    exact h1.trans (by rw [hstep.1]; simp [recordedItems])

theorem processItem_boundary (item : ResponseItem) :
    isUserTurnBoundary E (processItem E item) = isUserTurnBoundary E item := by
  cases item <;> rfl

theorem isApiMessage_of_boundary {item} (h : isUserTurnBoundary E item = true) :
    isApiMessage item = true ∧ processItem E item = item := by
  cases item with
  | message id role content phase metadata =>
    refine ⟨?_, rfl⟩
    simp only [isUserTurnBoundary, Bool.or_eq_true, Bool.and_eq_true, beq_iff_eq] at h
    rcases h with ⟨hr, -⟩ | ⟨hr, -⟩ <;> simp [isApiMessage, hr]
  | agentMessage => exact ⟨rfl, rfl⟩
  | _ => cases h

theorem isApiMessage_of_contextUpdate {item} (h : isContextUpdate E item = true) :
    isApiMessage item = true ∧ processItem E item = item := by
  cases item with
  | message id role content phase metadata =>
    refine ⟨?_, rfl⟩
    simp only [isContextUpdate, Bool.or_eq_true, Bool.and_eq_true, beq_iff_eq] at h
    rcases h with ⟨hr, -⟩ | ⟨hr, -⟩ <;> simp [isApiMessage, hr]
  | _ => cases h

theorem recordedItems_eq_self {items}
    (h : ∀ item ∈ items, isApiMessage item = true ∧ processItem E item = item) :
    recordedItems E items = items := by
  induction items with
  | nil => rfl
  | cons item items ih =>
    have hi := h item (by simp)
    have htail := ih fun i hm => h i (by simp [hm])
    simp only [recordedItems] at htail ⊢
    simp [hi.1, hi.2, htail]

theorem recordedItems_countP (items : List ResponseItem)
    (h : ∀ item ∈ items, isUserTurnBoundary E item = false) :
    (recordedItems E items).countP (isUserTurnBoundary E) = 0 := by
  rw [List.countP_eq_zero]
  intro item hi
  obtain ⟨i, hm, rfl⟩ := List.mem_map.1 hi
  rw [processItem_boundary, h i (List.mem_filter.1 hm).1]
  simp

theorem replaySuffix_append (s : ReplayState) (items extra : List RolloutItem) :
    replaySuffix E (s.withSuffix (items ++ extra)) = (replaySuffix E (s.withSuffix items)).run E extra := by
  simp only [replaySuffix, ForwardReplay.run, withSuffix, List.foldl_append]

theorem isCompacted_of_isReplacement {item : RolloutItem} (h : item.isReplacement = true) :
    item.isCompacted = true := by
  cases item <;> first | rfl | cases h

theorem BracketedTurn.isUserTurn_of_modelItems {turn : BracketedTurn} {item : ResponseItem}
    (hm : item ∈ modelItems turn.body) (hb : isUserTurnBoundary E item = true) :
    turn.isUserTurn E = true := by
  obtain ⟨record, hr, hrec⟩ := List.mem_filterMap.1 hm
  refine List.any_eq_true.2 ⟨record, hr, ?_⟩
  cases record with
  | responseItem i => cases hrec; exact hb
  | interAgentCommunication => rfl
  | _ => cases hrec

/-- **Rolling back a turn without a compaction**: with a turn left in the
history, the history before it without the context updates it ends in; else
the history before it with those of the turn. -/
theorem rollback_history (R : List RolloutItem) {turn : BracketedTurn} {pre post : List ResponseItem}
    {boundary : ResponseItem} (hcompact : ∀ item ∈ turn.body, item.isCompacted = false)
    (hbody : modelItems turn.body = pre ++ boundary :: post)
    (hpre : ∀ item ∈ pre, isContextUpdate E item = true) (hboundary : isUserTurnBoundary E boundary = true)
    (hpost : ∀ item ∈ post, isUserTurnBoundary E item = false) :
    let before := (reconstructHistoryFromRollout E R).history
    let after := (reconstructHistoryFromRollout E (R ++ turn.items ++ [.rollback 1])).history
    (before.countP (isUserTurnBoundary E) = 0 → after = before ++ pre) ∧
      (before.countP (isUserTurnBoundary E) ≠ 0 →
        after = before.rdropWhile (isContextUpdate E) ∧
          ((∀ item, before.getLast? = some item → isContextUpdate E item = false) → after = before)) := by
  intro before after
  have hmem : boundary ∈ modelItems turn.body := by simp [hbody]
  have huser : ∀ t ∈ [turn], t.isUserTurn E = true := by
    simpa using turn.isUserTurn_of_modelItems hmem hboundary
  have hnorep : turn.items.any (·.isReplacement) = false := by
    simp only [BracketedTurn.items, List.any_cons, List.any_append, RolloutItem.isReplacement, Bool.false_or,
      List.any_nil, Bool.or_false, List.any_eq_false]
    exact fun item hi hrep => by simpa [hcompact item hi] using isCompacted_of_isReplacement hrep
  -- Nothing of the turn captures the replay, so it is replayed after what was replayed before.
  have hscan : scanRollout E (R ++ turn.items ++ [.rollback 1]) =
      (scanRollout E R).withSuffix ((scanRollout E R).rolloutSuffix ++ (turn.items ++ [.rollback 1])) := by
    obtain ⟨left, hleft, hcase⟩ := scanRollout_rollback R huser (by simp)
    simp only [List.flatMap_singleton] at hleft hcase
    rw [List.append_assoc]
    refine hleft.trans (congrArg _ ?_)
    rcases hcase with ⟨-, h⟩ | ⟨-, hR, ⟨h, -⟩ | ⟨h, -⟩⟩
    · exact h
    · rw [hR]; exact h
    · rw [hnorep] at h; cases h
  have hreplay : replaySuffix E (scanRollout E (R ++ turn.items ++ [.rollback 1])) =
      (((replaySuffix E (scanRollout E R)).run E turn.items).run E [.rollback 1]) := by
    rw [hscan, replaySuffix_append, ForwardReplay.run, List.foldl_append]
    rfl
  have hitems : modelItems turn.items = pre ++ boundary :: post := by
    rw [← hbody]
    simp [modelItems, BracketedTurn.items]
  have hlocal : ∀ item ∈ turn.items, item.isCompacted = false ∧ ∀ n, item ≠ .rollback n := by
    intro item hi
    simp only [BracketedTurn.items, List.mem_cons, List.mem_append, List.not_mem_nil, or_false] at hi
    rcases hi with rfl | hi | rfl
    · exact ⟨rfl, fun n h => by cases h⟩
    · refine ⟨hcompact item hi, ?_⟩
      rintro n rfl
      cases turn.bodyLocal _ hi
    · exact ⟨rfl, fun n h => by cases h⟩
  have hturn := (run_append_only (E := E) hlocal (replaySuffix E (scanRollout E R))).1
  have hrecorded : recordedItems E (pre ++ boundary :: post) = pre ++ boundary :: recordedItems E post := by
    have hp := recordedItems_eq_self (E := E) fun i hi => isApiMessage_of_contextUpdate (hpre i hi)
    have hb := isApiMessage_of_boundary hboundary
    simp only [recordedItems] at hp ⊢
    simp [hp, hb.1, hb.2]
  have hafter : after = MarkedList.dropMarks (isUserTurnBoundary E) (isContextUpdate E) 1
      (before ++ (pre ++ boundary :: recordedItems E post)) := by
    change (replaySuffix E (scanRollout E (R ++ turn.items ++ [.rollback 1]))).history.items = _
    rw [hreplay]
    change (ContextManager.dropLastNUserTurns E _ 1).items = _
    rw [ContextManager.dropLastNUserTurns_items, hturn, hitems, hrecorded]
    rfl
  rw [hafter, MarkedList.dropMarks_one_append (not_isContextUpdate_of_boundary E) hpre hboundary
    (recordedItems_countP post hpost)]
  refine ⟨fun h => if_pos h, fun h => ?_⟩
  rw [if_neg h]
  refine ⟨rfl, fun hlast => ?_⟩
  rcases List.eq_nil_or_concat before with hnil | ⟨items, item, hitem⟩
  · rw [hnil]; rfl
  · rw [hitem, List.concat_eq_append] at hlast ⊢
    have hn : ¬ isContextUpdate E item = true := by simp [hlast item (by simp)]
    exact List.rdropWhile_concat_neg _ _ _ hn

/-- A turn with the given records. -/
def BracketedTurn.ofBody (id : String) (body : List RolloutItem)
    (h : ∀ item ∈ body, item.isBracket = false) : BracketedTurn :=
  { started := { turnId := id }, body, complete := { turnId := id }, sameTurn := rfl, bodyLocal := h }

/-- A message of `role` with one text. -/
def textMessage (role text : String) : ResponseItem := .message none role [.inputText text.toList] none none

theorem rollback_history_hello :
    (reconstructHistoryFromRollout .plain
      ((BracketedTurn.ofBody "t1" [.responseItem (textMessage "user" "hello")] (by decide)).items ++
        (BracketedTurn.ofBody "t2" [.responseItem (textMessage "developer" "<model_switch>"),
          .responseItem (textMessage "user" "again")] (by decide)).items ++ [.rollback 1])).history =
      [textMessage "user" "hello"] := by
  -- one evaluation for all four, which share most of their terms
  obtain ⟨hpre, hboundary, hcount, hlast⟩ :
      (∀ item ∈ [textMessage "developer" "<model_switch>"], isContextUpdate .plain item = true) ∧
      isUserTurnBoundary .plain (textMessage "user" "again") = true ∧
      (reconstructHistoryFromRollout .plain
        (BracketedTurn.ofBody "t1" [.responseItem (textMessage "user" "hello")] (by decide)).items).history.countP
          (isUserTurnBoundary .plain) ≠ 0 ∧
      ∀ item, (reconstructHistoryFromRollout .plain
        (BracketedTurn.ofBody "t1" [.responseItem (textMessage "user" "hello")] (by decide)).items).history.getLast? = some item →
          isContextUpdate .plain item = false := by
    decide +kernel
  exact ((@rollback_history .plain
    (BracketedTurn.ofBody "t1" [.responseItem (textMessage "user" "hello")] (by decide)).items
    (.ofBody "t2" [.responseItem (textMessage "developer" "<model_switch>"),
      .responseItem (textMessage "user" "again")] (by decide))
    [textMessage "developer" "<model_switch>"] [] (textMessage "user" "again")
    (by decide) (by decide) hpre hboundary (by decide)).2 hcount).2 hlast

/-- A turn that compacts, a history without turns, and a history that ends in
context: none of them comes back. -/
theorem rollback_history_changes :
    (let R := (BracketedTurn.ofBody "t1" [.responseItem (textMessage "user" "hello")] (by decide)).items
     let T := (BracketedTurn.ofBody "t2" [.responseItem (textMessage "user" "again"),
        .compacted { message := [], replacementHistory := some [textMessage "user" "summary"] }] (by decide)).items
     (reconstructHistoryFromRollout .plain (R ++ T ++ [.rollback 1])).history ≠
      (reconstructHistoryFromRollout .plain R).history) ∧
    (let R := (BracketedTurn.ofBody "t1" [.responseItem (textMessage "user" "hello"),
        .compacted { message := [], replacementHistory := some [] }] (by decide)).items
     let T := (BracketedTurn.ofBody "t2" [.responseItem (textMessage "developer" "<model_switch>"),
        .responseItem (textMessage "user" "again")] (by decide)).items
     (reconstructHistoryFromRollout .plain (R ++ T ++ [.rollback 1])).history ≠
      (reconstructHistoryFromRollout .plain R).history) ∧
    (let R := (BracketedTurn.ofBody "t1" [.responseItem (textMessage "user" "hello"),
        .responseItem (textMessage "user" "<turn_aborted>stopped</turn_aborted>")] (by decide)).items
     let T := (BracketedTurn.ofBody "t2" [.responseItem (textMessage "user" "again")] (by decide)).items
     (reconstructHistoryFromRollout .plain (R ++ T ++ [.rollback 1])).history ≠
      (reconstructHistoryFromRollout .plain R).history) := by
  decide +kernel

/-! ## The metadata -/

/-- A rollout of turns: whole turns, and rollback markers between them. -/
inductive Block where
  | turn (bracketed : BracketedTurn)
  | rolledBack (numTurns : UInt32)

def Block.items : Block → List RolloutItem
  | .turn bracketed => bracketed.items
  | .rolledBack numTurns => [.rollback numTurns]

/-- The turns that the rollback markers leave, newest first, of a rollout given newest first. -/
def survivors (E : Externals) : Nat → List Block → List BracketedTurn
  | _, [] => []
  | pending, .rolledBack numTurns :: older => survivors E (min (pending + numTurns.toNat) usizeMax) older
  | 0, .turn turn :: older => turn :: survivors E 0 older
  | pending + 1, .turn turn :: older =>
    survivors E (if turn.isUserTurn E then pending else pending + 1) older

/-- What a record says about the reference context of the turn `turnId`. -/
def RolloutItem.reference (turnId : String) : RolloutItem → Option TurnReferenceContextItem
  | .compacted _ => some .cleared
  | .turnContext ctx => if turnIdsAreCompatible (some turnId) ctx.turnId then some (.latest ctx) else none
  | _ => none

/-- What the newest such record of a turn says. Without one that clears it, only a user turn counts. -/
def BracketedTurn.reference (E : Externals) (turn : BracketedTurn) : Option TurnReferenceContextItem :=
  (turn.body.reverse.findSome? (·.reference turn.started.turnId)).filter fun reference =>
    turn.isUserTurn E || reference == .cleared

/-- The reference context of a rollout of turns: what its newest surviving turn with one says. -/
def referenceContext (E : Externals) (pending : Nat) (newestFirst : List Block) : TurnReferenceContextItem :=
  ((survivors E pending newestFirst).findSome? (·.reference E)).getD .neverSet

theorem RolloutItem.reference_ne_neverSet {turnId : String} {item : RolloutItem}
    {reference : TurnReferenceContextItem} (h : item.reference turnId = some reference) :
    reference ≠ .neverSet := by
  cases item with
  | compacted c => cases h; simp
  | turnContext ctx =>
    simp only [RolloutItem.reference] at h
    split at h <;> cases h
    simp
  | _ => cases h

theorem ActiveReplaySegment.record_reference {segment : ActiveReplaySegment} {id : String}
    (h : segment.turnId = some id) (item : RolloutItem) :
    (segment.record E item).referenceContextItem =
      if segment.referenceContextItem = .neverSet then (item.reference id).getD .neverSet
      else segment.referenceContextItem := by
  cases item with
  | compacted c => rfl
  | turnContext ctx =>
    simp only [record, h, Option.some_or, RolloutItem.reference]
    split <;> split <;> simp_all
  | eventMsg e => cases e <;> simp_all [record, RolloutItem.reference]
  | _ => simp_all [record, RolloutItem.reference]

theorem ActiveReplaySegment.foldl_record_reference {segment : ActiveReplaySegment} {id : String}
    (h : segment.turnId = some id) (items : List RolloutItem) :
    (items.foldl (·.record E ·) segment).referenceContextItem =
      if segment.referenceContextItem = .neverSet then (items.findSome? (·.reference id)).getD .neverSet
      else segment.referenceContextItem := by
  induction items generalizing segment with
  | nil => simp_all
  | cons item items ih =>
    rw [List.foldl_cons, ih (record_turnId h item), record_reference h, List.findSome?_cons]
    by_cases hs : segment.referenceContextItem = .neverSet
    · rw [if_pos hs, if_pos hs]
      cases hi : item.reference id with
      | none => rfl
      | some reference => exact if_neg (RolloutItem.reference_ne_neverSet hi)
    · rw [if_neg hs, if_neg hs, if_neg hs]

theorem BracketedTurn.segment_reference (turn : BracketedTurn) :
    (turn.segment E).referenceContextItem =
      (turn.body.reverse.findSome? (·.reference turn.started.turnId)).getD .neverSet := by
  rw [← turn.sameTurn, segment, ActiveReplaySegment.foldl_record_reference rfl, if_pos rfl]

namespace ReplayState

theorem finalizeActiveSegment_reference {s : ReplayState} (hp : s.pendingRollbackTurns = 0) (turn : BracketedTurn) :
    (s.finalizeActiveSegment (turn.segment E)).referenceContextItem =
      if s.referenceContextItem = .neverSet then (turn.reference E).getD .neverSet
      else s.referenceContextItem := by
  simp only [finalizeActiveSegment, hp, gt_iff_lt, Nat.lt_irrefl, if_false, turn.segment_counts,
    turn.segment_reference, BracketedTurn.reference]
  by_cases hs : s.referenceContextItem = .neverSet
  · cases turn.body.reverse.findSome? (·.reference turn.started.turnId) with
    | none => simp [hs]
    | some reference =>
      by_cases hc : turn.isUserTurn E = true ∨ reference = .cleared
      · rw [Option.filter_some_pos (by simpa using hc)]
        simp [hs, hc]
      · rw [Option.filter_some_neg (by simpa using hc)]
        simp [hs, hc]
  · simp [hs]

theorem BracketedTurn.segment_base {turn : BracketedTurn} (h : ∀ item ∈ turn.body, item.isReplacement = false) :
    (turn.segment E).baseReplacementHistory = none := by
  have hfold : ∀ (items : List RolloutItem) (segment : ActiveReplaySegment),
      (∀ item ∈ items, item.isReplacement = false) → segment.baseReplacementHistory = none →
        (items.foldl (·.record E ·) segment).baseReplacementHistory = none := by
    intro items
    induction items with
    | nil => exact fun _ _ h => h
    | cons item items ih =>
      intro segment hi hs
      exact ih _ (fun i hm => hi i (by simp [hm])) ((record_base (hi item (by simp))).trans hs)
  exact hfold _ _ (fun item hi => h item (List.mem_reverse.1 hi)) rfl

/-- **The reference context of a rollout of turns** without a replacement history. -/
theorem scan_reference {s : ReplayState} (hs : s.activeSegment = none) (hbase : s.baseReplacementHistory = none)
    {blocks : List Block} (hrep : ∀ item ∈ blocks.flatMap Block.items, item.isReplacement = false)
    (newer : List RolloutItem) :
    (s.scan E newer (blocks.flatMap Block.items).reverse).activeSegment = none ∧
      (s.scan E newer (blocks.flatMap Block.items).reverse).referenceContextItem =
        if s.referenceContextItem = .neverSet then referenceContext E s.pendingRollbackTurns blocks.reverse
        else s.referenceContextItem := by
  have hres {y : ReplayState} (hy : y.baseReplacementHistory = none) : ¬ y.isResolved = true := by
    simp [isResolved, hy]
  induction blocks using List.reverseRecOn generalizing s newer with
  | nil => simp [scan, hs, referenceContext, survivors]
  | append_singleton blocks block ih =>
    simp only [List.flatMap_append, List.flatMap_singleton, List.mem_append] at hrep
    have hrest : ∀ item ∈ blocks.flatMap Block.items, item.isReplacement = false := fun i hi => hrep i (.inl hi)
    rw [List.flatMap_append, List.flatMap_singleton, List.reverse_append, List.reverse_append,
      List.reverse_singleton, List.singleton_append]
    cases block with
    | rolledBack numTurns =>
      have hobs : s.observe E (.rollback numTurns) newer =
          s.withPending (min (s.pendingRollbackTurns + numTurns.toNat) usizeMax) := rfl
      simp only [Block.items, List.reverse_singleton, List.singleton_append]
      rw [scan_cons, hobs, withPending_isResolved, if_neg (hres hbase)]
      obtain ⟨hnone, href⟩ := ih (s := s.withPending (min (s.pendingRollbackTurns + numTurns.toNat) usizeMax)) hs hbase
        hrest (.rollback numTurns :: newer)
      exact ⟨hnone, href⟩
    | turn turn =>
      have hturn : ∀ item ∈ turn.body, item.isReplacement = false := by
        intro item hi
        exact hrep item (.inr (by simp [Block.items, BracketedTurn.items, hi]))
      obtain ⟨x, hx, -⟩ := scan_turn (E := E) hs (by simpa using hres hbase) turn newer
        (blocks.flatMap Block.items).reverse
      have hbase' : (s.finalizeActiveSegment (turn.segment E)).baseReplacementHistory = none := by
        rw [finalizeActiveSegment]
        split
        · split <;> exact hbase
        · simp [hbase, BracketedTurn.segment_base hturn]
      have hs' : (s.finalizeActiveSegment (turn.segment E)).activeSegment = none := by
        rw [finalizeActiveSegment]
        split
        · split <;> exact hs
        · exact hs
      simp only [Block.items]
      rw [hx, if_neg (hres hbase')]
      obtain ⟨hnone, href⟩ := ih (s := (s.finalizeActiveSegment (turn.segment E)).withSuffix x) hs' hbase' hrest
        (turn.items ++ newer)
      refine ⟨hnone, href.trans ?_⟩
      change (if (s.finalizeActiveSegment (turn.segment E)).referenceContextItem = .neverSet then
        referenceContext E (s.finalizeActiveSegment (turn.segment E)).pendingRollbackTurns blocks.reverse
        else (s.finalizeActiveSegment (turn.segment E)).referenceContextItem) = _
      cases hp : s.pendingRollbackTurns with
      | zero =>
        have hp' : (s.finalizeActiveSegment (turn.segment E)).pendingRollbackTurns = 0 := by
          simp [finalizeActiveSegment, hp]
        rw [finalizeActiveSegment_reference hp, hp']
        simp only [referenceContext, survivors, List.findSome?_cons]
        by_cases hn : s.referenceContextItem = .neverSet
        · rw [if_pos hn, if_pos hn]
          cases hr : turn.reference E with
          | none => rfl
          | some reference =>
            obtain ⟨hf, -⟩ := Option.filter_eq_some_iff.1 hr
            obtain ⟨item, -, hi⟩ := List.exists_of_findSome?_eq_some hf
            exact if_neg (RolloutItem.reference_ne_neverSet hi)
        · rw [if_neg hn, if_neg hn, if_neg hn]
      | succ pending =>
        have hfin : s.finalizeActiveSegment (turn.segment E) =
            s.withPending (if turn.isUserTurn E then pending else pending + 1) := by
          rw [finalizeActiveSegment, if_pos (by omega), turn.segment_counts, hp]
          split
          · rfl
          · simp [withPending, ← hp]
        rw [hfin]
        rfl

end ReplayState

theorem run_sawLegacy (r : ForwardReplay) (items : List RolloutItem) :
    (r.run E items).sawLegacyCompactionWithoutReplacementHistory =
      (r.sawLegacyCompactionWithoutReplacementHistory || items.any (·.isLegacyCompaction)) := by
  induction items generalizing r with
  | nil => simp [ForwardReplay.run]
  | cons item items ih =>
    have hstep : (r.step E item).sawLegacyCompactionWithoutReplacementHistory =
        (r.sawLegacyCompactionWithoutReplacementHistory || item.isLegacyCompaction) := by
      cases item with
      | compacted c =>
        simp only [ForwardReplay.step, RolloutItem.isLegacyCompaction]
        cases c.replacementHistory <;> simp
      | eventMsg e => cases e <;> simp [ForwardReplay.step, RolloutItem.isLegacyCompaction]
      | _ => simp [ForwardReplay.step, RolloutItem.isLegacyCompaction]
    rw [List.any_cons, ← Bool.or_assoc, ← hstep]
    exact ih (r.step E item)

theorem replaySuffix_sawLegacy (s : ReplayState) :
    (replaySuffix E s).sawLegacyCompactionWithoutReplacementHistory =
      s.rolloutSuffix.any (·.isLegacyCompaction) := by
  rw [replaySuffix, run_sawLegacy, Bool.false_or]

/-- The reference context of a replay that met no legacy compaction. -/
def latestContext : TurnReferenceContextItem → Option TurnContextItem
  | .neverSet | .cleared => none
  | .latest item => some item

theorem reconstruct_referenceContextItem (rollout : List RolloutItem) :
    (reconstructHistoryFromRollout E rollout).referenceContextItem =
      if (scanRollout E rollout).rolloutSuffix.any (·.isLegacyCompaction) then none
      else latestContext (scanRollout E rollout).referenceContextItem := by
  rw [← replaySuffix_sawLegacy (E := E)]
  rfl

/-- **Rolling back user turns leaves the metadata as it was**, except that a
compaction among them hides an older legacy compaction from the replay, which
then no longer clears the reference context. -/
theorem rollback_metadata_iff (blocks : List Block) {turns : List BracketedTurn}
    (huser : ∀ turn ∈ turns, turn.isUserTurn E = true) (hlen : turns.length < 2 ^ 32)
    (hlegacy : ∀ item ∈ turns.flatMap BracketedTurn.items, item.isLegacyCompaction = false) :
    let R := blocks.flatMap Block.items
    let before := reconstructHistoryFromRollout E R
    let after := reconstructHistoryFromRollout E
      (R ++ turns.flatMap BracketedTurn.items ++ [.rollback turns.length.toUInt32])
    (after.previousTurnSettings = before.previousTurnSettings ∧
      after.referenceContextItem = before.referenceContextItem ∧
      after.worldStateBaseline = before.worldStateBaseline) ↔
    ¬ ((∃ item ∈ turns.flatMap BracketedTurn.items, item.isReplacement = true) ∧
      (∀ item ∈ R, item.isReplacement = false) ∧ (∃ item ∈ R, item.isLegacyCompaction = true) ∧
      ∃ ctx, referenceContext E 0 blocks.reverse = .latest ctx) := by
  intro R before after
  obtain ⟨left, hscan, hleft⟩ := scanRollout_rollback (E := E) R huser hlen
  rw [← List.append_assoc] at hscan
  have hprev : after.previousTurnSettings = before.previousTurnSettings :=
    (congrArg ReplayState.previousTurnSettings hscan).trans rfl
  have hworld : after.worldStateBaseline = before.worldStateBaseline :=
    (congrArg (fun s : ReplayState => s.worldStateReplay.reverse.foldl replayWorldState none) hscan).trans rfl
  have hextra : (turns.flatMap BracketedTurn.items ++ [RolloutItem.rollback turns.length.toUInt32]).any
      (·.isLegacyCompaction) = false := by
    rw [List.any_append, List.any_eq_false.2 (by simpa using hlegacy)]
    rfl
  have hbefore : before.referenceContextItem =
      if (scanRollout E R).rolloutSuffix.any (·.isLegacyCompaction) then none
      else latestContext (scanRollout E R).referenceContextItem := reconstruct_referenceContextItem R
  have hafter : after.referenceContextItem =
      if left.any (·.isLegacyCompaction) then none else latestContext (scanRollout E R).referenceContextItem := by
    have hrolled := reconstruct_referenceContextItem (E := E)
      (R ++ turns.flatMap BracketedTurn.items ++ [RolloutItem.rollback turns.length.toUInt32])
    rwa [hscan] at hrolled
  simp only [hprev, hworld, true_and, and_true]
  -- The replay meets the same legacy compactions unless a rolled-back compaction cuts them off.
  rcases hleft with ⟨hR, rfl⟩ | ⟨hR, hsuffix, ⟨rfl, hnone⟩ | ⟨hany, post, rfl, hpost⟩⟩
  · have hsame : after.referenceContextItem = before.referenceContextItem := by
      rw [hafter, hbefore, List.any_append, hextra, Bool.or_false]
    refine iff_of_true hsame ?_
    rintro ⟨-, hno, -⟩
    obtain ⟨item, hi, hrep⟩ := List.any_eq_true.1 hR
    rw [hno item hi] at hrep
    cases hrep
  · have hsame : after.referenceContextItem = before.referenceContextItem := by
      rw [hafter, hbefore, hsuffix, List.any_append, hextra, Bool.or_false]
    refine iff_of_true hsame ?_
    rintro ⟨⟨item, hi, hrep⟩, -⟩
    exact absurd hrep (by simpa using List.any_eq_false.1 hnone item hi)
  · have hpost' : (post ++ [RolloutItem.rollback turns.length.toUInt32]).any (·.isLegacyCompaction) = false := by
      rw [List.any_append, List.any_eq_false.2 (fun item hi => by simpa using hlegacy item (hpost item hi))]
      rfl
    have hno : ∀ item ∈ R, item.isReplacement = false := by
      intro item hi
      simpa using List.any_eq_false.1 hR item hi
    obtain ⟨hactive, href⟩ := scan_reference (E := E) (s := { rolloutSuffix := R }) rfl rfl hno []
    have href' : (scanRollout E R).referenceContextItem = referenceContext E 0 blocks.reverse := by
      rw [scanRollout, finalizeTaken, hactive]
      exact href
    rw [hafter, hbefore, hpost', hsuffix, href']
    cases hlegacyR : R.any (·.isLegacyCompaction) with
    | false =>
      refine iff_of_true rfl ?_
      rintro ⟨-, -, ⟨item, hi, hl⟩, -⟩
      exact absurd hl (by simpa using List.any_eq_false.1 hlegacyR item hi)
    | true =>
      rw [List.any_eq_true] at hlegacyR hany
      cases hctx : referenceContext E 0 blocks.reverse with
      | latest ctx =>
        refine iff_of_false (by simp [latestContext]) (not_not.2 ⟨hany, hno, hlegacyR, ctx, rfl⟩)
      | neverSet | cleared =>
        refine iff_of_true (by simp [latestContext]) ?_
        rintro ⟨-, -, -, ctx, h⟩
        cases h

/-- A turn with a message of the user and the given records after it. -/
def BracketedTurn.withMessage (id message : String) (rest : List RolloutItem)
    (h : ∀ item ∈ rest, item.isBracket = false) : BracketedTurn :=
  .ofBody id (.responseItem (textMessage "user" message) :: rest) (by
    intro item hi
    rcases List.mem_cons.1 hi with rfl | hi
    · rfl
    · exact h item hi)

theorem rollback_metadata_context :
    (let before := reconstructHistoryFromRollout .plain
      (BracketedTurn.withMessage "t1" "hello" [.turnContext { turnId := some "t1", model := "m" }] (by decide)).items
     let after := reconstructHistoryFromRollout .plain
      ((BracketedTurn.withMessage "t1" "hello" [.turnContext { turnId := some "t1", model := "m" }] (by decide)).items ++
        (BracketedTurn.withMessage "t2" "again" [.turnContext { turnId := some "t2", model := "n" }] (by decide)).items
        ++ [.rollback 1])
     after.previousTurnSettings = before.previousTurnSettings ∧
      after.referenceContextItem = before.referenceContextItem ∧
      after.worldStateBaseline = before.worldStateBaseline) :=
  (@rollback_metadata_iff .plain
    [.turn (.withMessage "t1" "hello" [.turnContext { turnId := some "t1", model := "m" }] (by decide))]
    [.withMessage "t2" "again" [.turnContext { turnId := some "t2", model := "n" }] (by decide)]
    (by decide +kernel) (by decide) (by decide)).2 (fun h => absurd h.1 (by decide))

/-- A legacy compaction clears the reference context, until a later turn that compacts is rolled back. -/
theorem rollback_metadata_changes :
    ¬ (let R := (BracketedTurn.withMessage "t1" "hello" [.compacted { message := [], replacementHistory := none },
        .turnContext { turnId := some "t1", model := "m" }] (by decide)).items
     let T := (BracketedTurn.withMessage "t2" "again"
        [.compacted { message := [], replacementHistory := some [] }] (by decide)).items
     let before := reconstructHistoryFromRollout .plain R
     let after := reconstructHistoryFromRollout .plain (R ++ T ++ [.rollback 1])
     after.previousTurnSettings = before.previousTurnSettings ∧
      after.referenceContextItem = before.referenceContextItem ∧
      after.worldStateBaseline = before.worldStateBaseline) :=
  fun h => absurd h.2.1 (by decide +kernel)

end Codex
