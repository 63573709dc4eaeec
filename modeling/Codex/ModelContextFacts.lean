/-
What the bounded model context loses: nothing, unless it starts at a
compaction that a rollback marker follows in the open turn before it.

`after` is the state of the bounded scan over the records `S` of a rollout `P ++ S`,
`scanned` that of the reconstruction's scan over the same records. `Agrees`, what their
accounts of the open turn have in common, holds as long as neither has stopped.
-/
import Codex.ScanFacts
import Codex.ModelContext

namespace Codex

variable {E : Externals}

/-! ## Rollouts whose turns do not overlap -/

namespace RolloutItem

/-- The turn that a `TurnStarted` starts. -/
def startedId : RolloutItem → Option String
  | .eventMsg (.turnStarted event) => some event.turnId
  | _ => none

/-- The turn that a `TurnContext`, `TurnComplete` or `TurnAborted` names. -/
def namedTurn : RolloutItem → Option String
  | .turnContext context => context.turnId
  | .eventMsg (.turnComplete event) => some event.turnId
  | .eventMsg (.turnAborted event) => event.turnId
  | _ => none

def isTurnContext : RolloutItem → Bool
  | .turnContext _ => true
  | _ => false

def isTurnContextOf (turnId : String) : RolloutItem → Bool
  | .turnContext context => context.turnId == some turnId
  | _ => false

def isBoundaryItem (E : Externals) : RolloutItem → Bool
  | .responseItem item => isUserTurnBoundary E item
  | _ => false

/-- The turn that an `ItemCompleted` with a user message is recorded for. -/
def userMessageTurn : RolloutItem → Option String
  | .eventMsg (.itemCompleted turnId item) => if item.isUserMessage then some turnId else none
  | _ => none

/-- A rollback marker that skips turns. -/
def skipsTurns : RolloutItem → Bool
  | .eventMsg (.threadRolledBack numTurns) => 0 < numTurns.toNat
  | _ => false

end RolloutItem

/-- The turn that is open after the records. -/
def startedTurn (items : List RolloutItem) : Option String := items.reverse.findSome? (·.startedId)

/-- The records of the turn that is open before them. -/
def turnRecords (items : List RolloutItem) : List RolloutItem := items.takeWhile (·.startedId.isNone)

/-- The records of the turn that is open after them. -/
def openRecords (items : List RolloutItem) : List RolloutItem := items.rtakeWhile (·.startedId.isNone)

/-- Every record that names a turn comes after its start and before the next start. -/
def namesOpenTurn (current : Option String) : List RolloutItem → Bool
  | [] => true
  | item :: rest => item.namedTurn.all (some · == current) && namesOpenTurn (item.startedId.or current) rest

/-- What `test` says of every start of a turn and the turn's records. -/
def allTurns (test : String → List RolloutItem → Bool) : List RolloutItem → Bool
  | [] => true
  | item :: rest => item.startedId.all (test · (turnRecords rest)) && allTurns test rest

/-- The rollouts that the bounded scan is for. -/
@[mk_iff]
structure TurnsSeparate (E : Externals) (items : List RolloutItem) : Prop where
  namesOpenTurn : namesOpenTurn none items = true
  /-- A turn with a user-turn boundary carries a turn context. -/
  userTurnContext : allTurns (fun turnId records =>
    !records.any (·.countsAsUserTurn E) || records.any (·.isTurnContextOf turnId)) items = true
  /-- A user message item is recorded only for turns with a boundary among their response items. -/
  userMessageBoundary : ∀ turnId ∈ items.filterMap (·.userMessageTurn),
    allTurns (fun started records => started != turnId || records.any (·.isBoundaryItem E)) items = true

instance TurnsSeparate.decidable (E : Externals) (items : List RolloutItem) : Decidable (TurnsSeparate E items) :=
  decidable_of_iff _ (turnsSeparate_iff E items).symm

theorem startedTurn_cons (item : RolloutItem) (items : List RolloutItem) :
    startedTurn (item :: items) = (startedTurn items).or item.startedId := by
  cases h : item.startedId <;> simp [startedTurn, h]

theorem startedTurn_append_singleton (items : List RolloutItem) (item : RolloutItem) :
    startedTurn (items ++ [item]) = item.startedId.or (startedTurn items) := by
  cases h : item.startedId <;> simp [startedTurn, h]

variable {item : RolloutItem} {P S : List RolloutItem} {turnId : String} {segment : ActiveReplaySegment}
  {s : ReplayState} {scan : ModelContextScan}

theorem openRecords_append_singleton (h : item.startedId = none) (items : List RolloutItem) :
    openRecords (items ++ [item]) = openRecords items ++ [item] :=
  List.rtakeWhile_concat_pos _ _ _ (by simp [h])

theorem startedTurn_of_namesOpenTurn {current}
    (h : namesOpenTurn current (P ++ item :: S) = true) (hi : item.namedTurn = some turnId) :
    (startedTurn P).or current = some turnId := by
  induction P generalizing current with
  | nil =>
    simp only [List.nil_append, namesOpenTurn, Bool.and_eq_true, hi, Option.all_some, beq_iff_eq] at h
    exact h.1.symm
  | cons x P ih =>
    simp only [List.cons_append, namesOpenTurn, Bool.and_eq_true] at h
    rw [startedTurn_cons, Option.or_assoc]
    exact ih h.2

theorem turn_of_allTurns {test : String → List RolloutItem → Bool}
    (h : allTurns test (P ++ item :: S) = true) (hi : item.startedId = some turnId) :
    test turnId (turnRecords S) = true := by
  induction P with
  | nil =>
    simp only [List.nil_append, allTurns, Bool.and_eq_true, hi, Option.all_some] at h
    exact h.1
  | cons x P ih =>
    simp only [List.cons_append, allTurns, Bool.and_eq_true] at h
    exact ih h.2

/-! ## The bounded scan -/

namespace ModelContextScan

theorem push_fst (scan : ModelContextScan) (item : RolloutItem) :
    (scan.push E item).1 = { (scan.observe E item).1 with
      itemsNewestFirst := (scan.observe E item).1.itemsNewestFirst ++ [item] } := rfl

theorem push_complete (scan : ModelContextScan) (item : RolloutItem) :
    (scan.push E item).2 = if (scan.push E item).1.hasBoundedCutoff then .complete else .more := by
  change (scan.observe E item).2 = if (scan.observe E item).1.hasBoundedCutoff then _ else _
  rw [observe]
  split
  · next h => simp [hasBoundedCutoff, h]
  · rfl

/-- The scan after the records `S`, read newest first. -/
def after (E : Externals) (S : List RolloutItem) : ModelContextScan :=
  S.foldr (fun item scan => (scan.push E item).1) {}

theorem after_cons (item : RolloutItem) (S : List RolloutItem) :
    after E (item :: S) = ((after E S).push E item).1 := rfl

theorem advance_items (scan : ModelContextScan) (item : RolloutItem) :
    (scan.advance E item).itemsNewestFirst = scan.itemsNewestFirst := by
  unfold advance
  split
  · split <;> rfl
  · rfl
  · split <;> rfl
  · rfl

theorem after_items (S : List RolloutItem) : (after E S).itemsNewestFirst = S.reverse := by
  induction S with
  | nil => rfl
  | cons item S ih =>
    rw [after_cons, push_fst, observe]
    split
    · simp [ih]
    · simp [advance_items, ih]

theorem after_of_not_must (h : (after E (item :: S)).mustScanToStart = false) :
    (after E S).mustScanToStart = false ∧ ((after E S).advance E item).mustScanToStart = false ∧
      after E (item :: S) = { (after E S).advance E item with itemsNewestFirst := (item :: S).reverse } := by
  have hitems := after_items (E := E) (item :: S)
  rw [after_cons, push_fst, observe] at h hitems ⊢
  split at h
  · next hm => exact absurd h (by simpa using hm)
  · next hm =>
    rw [if_neg hm] at hitems
    rw [if_neg hm]
    refine ⟨by simpa using hm, h, ?_⟩
    rw [← hitems]

/-- Where the reader stops: at the beginning, or at the first record that completes the scan. -/
theorem collect_after (S older : List RolloutItem) (h : (after E S).hasBoundedCutoff = false) :
    ∃ P T, older.reverse = P ++ T ∧ (after E S).collect E older = after E (T ++ S) ∧
      (P = [] ∨ ∃ item rest, T ++ S = item :: rest ∧ (after E (item :: rest)).hasBoundedCutoff = true ∧
        (after E rest).hasBoundedCutoff = false) := by
  induction older generalizing S with
  | nil => exact ⟨[], [], rfl, rfl, .inl rfl⟩
  | cons item older ih =>
    have hp := push_complete (E := E) (after E S) item
    by_cases hb : (after E (item :: S)).hasBoundedCutoff = true
    · refine ⟨older.reverse, [item], by simp, ?_, .inr ⟨item, S, rfl, hb, h⟩⟩
      rw [← after_cons, if_pos hb] at hp
      rw [collect, show (after E S).push E item = (after E (item :: S), .complete) from Prod.ext rfl hp]
      rfl
    · obtain ⟨P, T, hsplit, hcollect, hstop⟩ := ih (item :: S) (by simpa using hb)
      rw [← after_cons, if_neg hb] at hp
      refine ⟨P, T ++ [item], by simp [hsplit], ?_, by simpa using hstop⟩
      rw [collect, show (after E S).push E item = (after E (item :: S), .more) from Prod.ext rfl hp]
      simpa using hcollect

end ModelContextScan

/-! ## The two scans -/

namespace ActiveReplaySegment

theorem record_namedTurn (segment : ActiveReplaySegment) (item : RolloutItem) :
    (segment.record E item).turnId = segment.turnId.or item.namedTurn := by
  cases item with
  | eventMsg e => cases e <;> simp [record, RolloutItem.namedTurn]
  | turnContext context =>
    simp only [record, RolloutItem.namedTurn]
    split <;> rfl
  | _ => simp [record, RolloutItem.namedTurn]

/-- The segment has resume metadata to give. -/
def HasContext (segment : ActiveReplaySegment) : Prop :=
  segment.previousTurnSettings.isSome = true ∧ segment.referenceContextItem ≠ .neverSet

theorem record_hasContext (h : segment.HasContext) (item : RolloutItem) :
    (segment.record E item).HasContext := by
  cases item with
  | eventMsg e => cases e <;> exact h
  | turnContext context =>
    simp only [record]
    split
    · exact ⟨rfl, by simp [h.2]⟩
    · exact h
  | compacted c => exact ⟨h.1, by simp [record, h.2]⟩
  | _ => exact h

theorem record_turnContext {context}
    (h : turnIdsAreCompatible (segment.turnId.or context.turnId) context.turnId = true) :
    (segment.record E (.turnContext context)).HasContext := by
  simp only [record, if_pos h, HasContext, Option.isSome_some, true_and]
  split
  · simp
  · next hn => exact hn

end ActiveReplaySegment

theorem turnIdsAreCompatible_iff {active item} :
    turnIdsAreCompatible active item = true ↔ ∀ a, active = some a → ∀ i, item = some i → i = a := by
  cases active <;> cases item <;> simp [turnIdsAreCompatible]

namespace ReplayState

/-- The resume metadata is known. -/
def HasMetadata (s : ReplayState) : Prop :=
  s.previousTurnSettings.isSome = true ∧ s.referenceContextItem ≠ .neverSet

def HasWindows (s : ReplayState) : Prop :=
  (s.baseReplacementHistory.isSome = true → s.window.isSome = true) ∧
    (s.getSegment.baseReplacementHistory.isSome = true → s.getSegment.window.isSome = true)

theorem finalizeTaken_getSegment (s : ReplayState) : s.finalizeTaken.getSegment = {} := by
  unfold finalizeTaken
  split
  · rw [finalizeActiveSegment]
    split
    · split <;> rfl
    · rfl
  · next h => simp [getSegment, h]

/-- Finalizing, with no turn left to skip, a segment that is open or empty. -/
theorem finalizeTaken_eq (hp : s.pendingRollbackTurns = 0) : s.finalizeTaken = { s with
      worldStateReplay := s.worldStateReplay ++ s.getSegment.worldStateReplay
      baseReplacementHistory := s.baseReplacementHistory.or s.getSegment.baseReplacementHistory
      window := s.window.or s.getSegment.window
      previousTurnSettings :=
        if s.previousTurnSettings.isNone && s.getSegment.countsAsUserTurn then s.getSegment.previousTurnSettings
        else s.previousTurnSettings
      referenceContextItem :=
        if s.referenceContextItem = .neverSet ∧
            (s.getSegment.countsAsUserTurn ∨ s.getSegment.referenceContextItem = .cleared) then
          s.getSegment.referenceContextItem
        else s.referenceContextItem
      activeSegment := none } := by
  unfold finalizeTaken getSegment
  split
  · next segment h =>
    rw [h, finalizeActiveSegment, if_neg (by simp [takeSegment, hp])]
    rfl
  · next h =>
    cases s
    subst h
    simp

/-- The start of the turn that a segment names, or of any turn when it names none, closes it. -/
theorem observe_started {event}
    (h : ∀ turnId, s.getSegment.turnId = some turnId → event.turnId = turnId) (newer : List RolloutItem) :
    s.observe E (.eventMsg (.turnStarted event)) newer = s.finalizeTaken := by
  simp only [observe]
  split
  · rfl
  · next hc =>
    unfold finalizeTaken
    split
    · next segment hs =>
      simp only [getSegment, hs, Option.getD_some] at h
      exact absurd (by simpa [hs, turnIdsAreCompatible_iff] using h) hc
    · rfl

theorem finalizeTaken_metadata (hp : s.pendingRollbackTurns = 0) (h : s.HasMetadata) :
    s.finalizeTaken.HasMetadata := by
  obtain ⟨hprev, href⟩ := h
  have hsome : s.previousTurnSettings.isNone = false := by simpa [Option.isSome_iff_ne_none] using hprev
  rw [finalizeTaken_eq hp]
  refine ⟨?_, ?_⟩
  · simpa [hsome] using hprev
  · simp [href]

theorem finalizeTaken_userTurn (hp : s.pendingRollbackTurns = 0)
    (hu : s.getSegment.countsAsUserTurn = true) (hc : s.getSegment.HasContext) : s.finalizeTaken.HasMetadata := by
  rw [finalizeTaken_eq hp]
  refine ⟨?_, ?_⟩
  · simp only [hu, Bool.and_true]
    split
    · exact hc.1
    · next h => simpa [Option.isSome_iff_ne_none] using h
  · simp only [hu, true_or, and_true]
    split
    · exact hc.2
    · next h => exact h

theorem finalizeTaken_hasWindows (hp : s.pendingRollbackTurns = 0) (h : s.HasWindows) :
    s.finalizeTaken.HasWindows := by
  refine ⟨?_, by simp [finalizeTaken_getSegment]⟩
  rw [finalizeTaken_eq hp]
  simp only [Option.isSome_or, Bool.or_eq_true]
  exact Or.imp h.1 h.2

end ReplayState

namespace ModelContextScan

open ReplayState

/-- What the bounded scan `scan` and the reconstruction's scan `s` have in
common after the records `S` of the rollout `P ++ S`. -/
structure Agrees (E : Externals) (P S : List RolloutItem) (scan : ModelContextScan) (s : ReplayState) : Prop where
  pending : s.pendingRollbackTurns = 0
  counts : s.getSegment.countsAsUserTurn = (turnRecords S).any (·.countsAsUserTurn E)
  context : (turnRecords S).any (·.isTurnContext) = true → s.getSegment.HasContext
  turn : ∀ turnId, s.getSegment.turnId = some turnId → startedTurn P = some turnId
  completed : scan.sawCompletedTurnContext = true → s.HasMetadata
  userTurn : scan.activeSegment.hasUserTurn = true → s.HasMetadata ∨ s.getSegment.countsAsUserTurn = true ∨
    ∃ turnId, scan.activeSegment.turnId = some turnId ∧ turnId ∈ (P ++ S).filterMap (·.userMessageTurn)
  compaction : scan.sawCompaction = true →
    s.baseReplacementHistory.isSome = true ∨ s.getSegment.baseReplacementHistory.isSome = true
  noCompaction : scan.sawCompaction = false → s.NoBase
  windows : s.HasWindows

theorem turnRecords_cons (hi : item.isBracket = false) (S : List RolloutItem) :
    turnRecords (item :: S) = item :: turnRecords S := by
  have : item.startedId = none := by
    cases item with
    | eventMsg e => cases e <;> first | rfl | cases hi
    | _ => rfl
  simp [turnRecords, this]

/-- The bounded scan takes a user turn only from a record that counts as one. -/
theorem record_hasUserTurn {segment : ActiveTurnSegment} (h : (segment.record E item).hasUserTurn = true) :
    segment.hasUserTurn = true ∨ item.countsAsUserTurn E = true ∨
      ∃ turnId, (segment.record E item).turnId = some turnId ∧ item.userMessageTurn = some turnId := by
  cases item with
  | responseItem i =>
    simp only [ActiveTurnSegment.record, Bool.or_eq_true] at h
    refine h.imp_right fun hi => .inl ?_
    cases i with
    | message id role content phase metadata =>
      simp only [responseItemCountsAsUserTurn, Bool.and_eq_true] at hi
      simp [RolloutItem.countsAsUserTurn, isUserTurnBoundary, hi.1, hi.2]
    | agentMessage => rfl
    | _ => cases hi
  | eventMsg e =>
    cases e with
    | itemCompleted turnId i =>
      simp only [ActiveTurnSegment.record, Bool.or_eq_true, Bool.and_eq_true] at h ⊢
      refine h.imp_right fun hboth => .inr ⟨turnId, ?_, by simp [RolloutItem.userMessageTurn, hboth.2]⟩
      have hc := turnIdsAreCompatible_iff.1 hboth.1
      cases ht : segment.turnId with
      | none => rfl
      | some a => rw [hc a (by simp [ht]) turnId rfl]; rfl
    | userMessage => exact .inr (.inl rfl)
    | _ => exact .inl h
  | interAgentCommunication => exact .inr (.inl rfl)
  | _ => exact .inl h

theorem record_turnId_isSome {segment : ActiveTurnSegment}
    (h : segment.turnId = some turnId) : (segment.record E item).turnId = some turnId := by
  cases item with
  | eventMsg e => cases e <;> simp [ActiveTurnSegment.record, h]
  | _ => simp [ActiveTurnSegment.record, h]

/-- A record inside the open turn changes its segment, and a compaction is remembered. -/
theorem advance_local (hi : item.isBracket = false) (hadv : (scan.advance E item).mustScanToStart = false) :
    (scan.advance E item).activeSegment = scan.activeSegment.record E item ∧
      (scan.advance E item).sawCompletedTurnContext = scan.sawCompletedTurnContext ∧
      (scan.advance E item).sawCompaction = (scan.sawCompaction || item.isReplacement) := by
  cases item with
  | compacted c =>
    simp only [advance] at hadv ⊢
    split at hadv
    · cases hadv
    · next h =>
      rw [if_neg h]
      simp only [Bool.or_eq_true, not_or, Option.isNone_iff_eq_none] at h
      refine ⟨rfl, rfl, ?_⟩
      simp [RolloutItem.isReplacement, Option.isSome_iff_ne_none, h.1]
  | eventMsg e =>
    cases e with
    | turnStarted | threadRolledBack => cases hi
    | _ => exact ⟨rfl, rfl, (Bool.or_false _).symm⟩
  | _ => exact ⟨rfl, rfl, (Bool.or_false _).symm⟩

theorem hasWindows_record (h : segment.baseReplacementHistory.isSome = true → segment.window.isSome = true)
    (hadv : (scan.advance E item).mustScanToStart = false) :
    (segment.record E item).baseReplacementHistory.isSome = true → (segment.record E item).window.isSome = true := by
  cases item with
  | compacted c =>
    simp only [advance] at hadv
    split at hadv
    · cases hadv
    · next hc =>
      simp only [Bool.or_eq_true, not_or, Option.isNone_iff_eq_none] at hc
      obtain ⟨number, hn⟩ := Option.ne_none_iff_exists'.1 hc.2
      simp [ActiveReplaySegment.record, compactedWindow, hn]
  | eventMsg e => cases e <;> exact h
  | turnContext context =>
    simp only [ActiveReplaySegment.record]
    split <;> exact h
  | _ => exact h

theorem Agrees.local (h : Agrees E (P ++ [item]) S scan s) (hi : item.isBracket = false)
    (hnames : namesOpenTurn none (P ++ item :: S) = true)
    (hadv : (scan.advance E item).mustScanToStart = false) :
    Agrees E P (item :: S) (scan.advance E item) (s.observe E item S) := by
  obtain ⟨hsegment, hframe⟩ := observe_segment (E := E) s hi S
  obtain ⟨hactive, hcompleted, hcompaction⟩ := advance_local (E := E) hi hadv
  have hbase : (s.observe E item S).baseReplacementHistory = s.baseReplacementHistory :=
    (congrArg ReplayState.baseReplacementHistory hframe).trans rfl
  have hwindow : (s.observe E item S).window = s.window := (congrArg ReplayState.window hframe).trans rfl
  have hmeta (hm : s.HasMetadata) : (s.observe E item S).HasMetadata := by
    have hprev := congrArg ReplayState.previousTurnSettings hframe
    have href := congrArg ReplayState.referenceContextItem hframe
    exact ⟨(congrArg Option.isSome hprev).trans hm.1, fun hn => hm.2 (href.symm.trans hn)⟩
  -- The turn that is open before the record is the one that is open after it.
  have hturn (turnId : String) (ht : s.getSegment.turnId = some turnId) : startedTurn P = some turnId := by
    have hstarted : item.startedId = none := by
      cases item with
      | eventMsg e => cases e <;> first | rfl | cases hi
      | _ => rfl
    simpa [startedTurn_append_singleton, hstarted] using h.turn turnId ht
  have hnamed (turnId : String) (hn : item.namedTurn = some turnId) : startedTurn P = some turnId := by
    simpa using startedTurn_of_namesOpenTurn hnames hn
  refine { pending := ?_, counts := ?_, context := ?_, turn := ?_, completed := ?_, userTurn := ?_,
           compaction := ?_, noCompaction := ?_, windows := ?_ }
  · exact (congrArg ReplayState.pendingRollbackTurns hframe).trans h.pending
  · rw [hsegment, ActiveReplaySegment.record_counts, h.counts, turnRecords_cons hi, List.any_cons, Bool.or_comm]
  · rw [turnRecords_cons hi, List.any_cons, hsegment, Bool.or_eq_true]
    rintro (hctx | hctx)
    · cases item with
      | turnContext context =>
        refine ActiveReplaySegment.record_turnContext (turnIdsAreCompatible_iff.2 fun a ha i hc => ?_)
        rw [Option.or_eq_some_iff] at ha
        rcases ha with ha | ⟨-, ha⟩
        · exact Option.some.inj ((hnamed i hc).symm.trans (hturn a ha))
        · exact Option.some.inj (hc.symm.trans ha)
      | _ => cases hctx
    · exact ActiveReplaySegment.record_hasContext (h.context hctx) item
  · intro turnId ht
    rw [hsegment, ActiveReplaySegment.record_namedTurn, Option.or_eq_some_iff] at ht
    exact ht.elim (hturn turnId) fun ht => hnamed turnId ht.2
  · rw [hcompleted]
    exact fun hc => hmeta (h.completed hc)
  · rw [hactive, hsegment, ActiveReplaySegment.record_counts]
    intro hu
    rcases record_hasUserTurn hu with hu | hu | ⟨turnId, ht, hm⟩
    · rcases h.userTurn hu with hm | hc | ⟨turnId, ht, hm⟩
      · exact .inl (hmeta hm)
      · exact .inr (.inl (by rw [hc]; rfl))
      · exact .inr (.inr ⟨turnId, record_turnId_isSome ht, by simpa using hm⟩)
    · exact .inr (.inl (by rw [hu, Bool.or_true]))
    · exact .inr (.inr ⟨turnId, ht, by simp [hm]⟩)
  · rw [hcompaction, hbase, hsegment, Bool.or_eq_true]
    rintro (hc | hc)
    · refine (h.compaction hc).imp_right fun hseg => ?_
      cases item with
      | compacted c => simp [ActiveReplaySegment.record, hseg]
      | _ => rw [record_base rfl]; exact hseg
    · cases item with
      | compacted c => exact .inr (by simpa [ActiveReplaySegment.record, RolloutItem.isReplacement] using .inr hc)
      | _ => cases hc
  · rw [hcompaction, Bool.or_eq_false_iff]
    rintro ⟨hc, hr⟩
    exact observe_noBase (h.noCompaction hc) hr S
  · refine ⟨?_, ?_⟩
    · rw [hbase, hwindow]
      exact h.windows.1
    · rw [hsegment]
      exact hasWindows_record h.windows.2 hadv

/-- The start of the open turn closes its segment in the reconstruction's scan,
whether or not the bounded scan takes it for the start of the turn it has open. -/
theorem Agrees.started {event} (h : Agrees E (P ++ [.eventMsg (.turnStarted event)]) S scan s)
    (hsep : TurnsSeparate E (P ++ .eventMsg (.turnStarted event) :: S)) :
    s.observe E (.eventMsg (.turnStarted event)) S = s.finalizeTaken ∧
      Agrees E P (.eventMsg (.turnStarted event) :: S) (scan.advance E (.eventMsg (.turnStarted event)))
        s.finalizeTaken := by
  have hturn (turnId : String) (ht : s.getSegment.turnId = some turnId) : event.turnId = turnId := by
    simpa [startedTurn_append_singleton, RolloutItem.startedId] using h.turn turnId ht
  have hobserve := observe_started (E := E) hturn S
  -- A user turn carries its context, so closing it settles the metadata.
  have huser (hc : s.getSegment.countsAsUserTurn = true) : s.finalizeTaken.HasMetadata := by
    have htest := turn_of_allTurns hsep.userTurnContext (show RolloutItem.startedId _ = some event.turnId from rfl)
    rw [← h.counts, hc, Bool.not_true, Bool.false_or, List.any_eq_true] at htest
    obtain ⟨item, hmem, hitem⟩ := htest
    refine finalizeTaken_userTurn h.pending hc (h.context (List.any_eq_true.2 ⟨item, hmem, ?_⟩))
    cases item <;> first | rfl | cases hitem
  have hactive : (scan.advance E (.eventMsg (.turnStarted event))).sawCompaction = scan.sawCompaction := by
    simp only [advance]
    split <;> rfl
  have hmessage {turnId : String} (ht : turnId = event.turnId)
      (hm : turnId ∈ (P ++ .eventMsg (.turnStarted event) :: S).filterMap (·.userMessageTurn)) :
      s.getSegment.countsAsUserTurn = true := by
    have htest := turn_of_allTurns (hsep.userMessageBoundary turnId hm)
      (show RolloutItem.startedId _ = some event.turnId from rfl)
    simp only [ht, bne_self_eq_false, Bool.false_or, List.any_eq_true] at htest
    obtain ⟨item, hmem, hitem⟩ := htest
    rw [h.counts]
    refine List.any_eq_true.2 ⟨item, hmem, ?_⟩
    cases item <;> first | exact hitem | cases hitem
  have hsplit : P ++ [.eventMsg (.turnStarted event)] ++ S = P ++ .eventMsg (.turnStarted event) :: S := by simp
  refine ⟨hobserve, { pending := ?_, counts := ?_, context := ?_, turn := ?_, completed := ?_, userTurn := ?_,
                      compaction := ?_, noCompaction := ?_, windows := ?_ }⟩
  · rw [finalizeTaken_eq h.pending]
    exact h.pending
  · rw [finalizeTaken_getSegment]
    rfl
  · intro hc
    cases hc
  · intro turnId ht
    rw [finalizeTaken_getSegment] at ht
    cases ht
  · simp only [advance]
    split
    · next hcompat =>
      simp only [finalizeActiveSegment, Bool.or_eq_true, Bool.and_eq_true]
      rintro (hc | ⟨hu, -⟩)
      · exact finalizeTaken_metadata h.pending (h.completed hc)
      · rcases h.userTurn hu with hm | hc | ⟨turnId, ht, hm⟩
        · exact finalizeTaken_metadata h.pending hm
        · exact huser hc
        · rw [hsplit] at hm
          have hid := turnIdsAreCompatible_iff.1 hcompat turnId ht event.turnId rfl
          exact huser (hmessage hid.symm hm)
    · exact fun hc => finalizeTaken_metadata h.pending (h.completed hc)
  · simp only [advance]
    split
    · exact fun hu => by cases hu
    · intro hu
      rcases h.userTurn hu with hm | hc | ⟨turnId, ht, hm⟩
      · exact .inl (finalizeTaken_metadata h.pending hm)
      · exact .inl (huser hc)
      · exact .inr (.inr ⟨turnId, ht, hsplit ▸ hm⟩)
  · rw [hactive, finalizeTaken_eq h.pending]
    intro hc
    exact .inl (by simpa using h.compaction hc)
  · rw [hactive]
    exact fun hc => finalizeTaken_noBase (h.noCompaction hc)
  · exact finalizeTaken_hasWindows h.pending h.windows

/-! ## Both scans over the same records -/

/-- The reconstruction's scan after the records `S`, read newest first. -/
def scanned (E : Externals) (S : List RolloutItem) : ReplayState :=
  ({ rolloutSuffix := [] } : ReplayState).scan E [] S.reverse

theorem scanned_cons (item : RolloutItem) (S : List RolloutItem) :
    scanned E (item :: S) = if (scanned E S).isResolved then scanned E S else (scanned E S).observe E item S := by
  rw [scanned, List.reverse_cons, scan_append rfl, List.reverse_reverse, List.append_nil]
  change (if (scanned E S).isResolved then scanned E S else (scanned E S).scan E S [item]) = _
  rw [scan_cons, scan, ite_self]

/-- **Both scans agree** on the records that neither has stopped at. -/
theorem agrees (hsep : TurnsSeparate E (P ++ S)) (hmust : (after E S).mustScanToStart = false) :
    ((scanned E S).isResolved = true ∧ (scanned E S).window.isSome = true) ∨
      ((scanned E S).isResolved = false ∧ Agrees E P S (after E S) (scanned E S)) := by
  induction S generalizing P with
  | nil =>
    refine .inr ⟨rfl, ?_⟩
    constructor <;> simp [scanned, after, scan, turnRecords, getSegment, NoBase, HasWindows]
  | cons item S ih =>
    obtain ⟨hmust', hadv, hafter⟩ := after_of_not_must hmust
    have hsplit : P ++ [item] ++ S = P ++ item :: S := by simp
    rw [scanned_cons]
    rcases ih (P := P ++ [item]) (hsplit ▸ hsep) hmust' with ⟨hres, hw⟩ | ⟨hres, hagrees⟩
    · rw [if_pos hres]
      exact .inl ⟨hres, hw⟩
    · rw [if_neg (by simp [hres])]
      have hstep : Agrees E P (item :: S) ((after E S).advance E item) ((scanned E S).observe E item S) := by
        cases hb : item.isBracket with
        | false => exact hagrees.local hb hsep.namesOpenTurn hadv
        | true =>
          cases item with
          | eventMsg e =>
            cases e with
            | turnStarted event =>
              obtain ⟨hobs, hstarted⟩ := hagrees.started hsep
              rw [hobs]
              exact hstarted
            | threadRolledBack n => cases hadv
            | _ => cases hb
          | _ => cases hb
      cases hres' : ((scanned E S).observe E item S).isResolved with
      | true =>
        refine .inl ⟨rfl, hstep.windows.1 ?_⟩
        simp only [isResolved, Bool.and_eq_true] at hres'
        exact hres'.1.1
      | false =>
        refine .inr ⟨rfl, ?_⟩
        rw [hafter]
        obtain ⟨h1, h2, h3, h4, h5, h6, h7, h8, h9⟩ := hstep
        exact ⟨h1, h2, h3, h4, h5, h6, h7, h8, h9⟩

theorem replacement_of_sawCompaction (h : (after E S).sawCompaction = true)
    (hmust : (after E S).mustScanToStart = false) : S.any (·.isReplacement) = true := by
  induction S with
  | nil => cases h
  | cons item S ih =>
    obtain ⟨hmust', hadv, hafter⟩ := after_of_not_must hmust
    rw [hafter] at h
    cases hb : item.isBracket with
    | false =>
      have hc := (advance_local (E := E) hb hadv).2.2.symm.trans h
      rw [Bool.or_eq_true] at hc
      rcases hc with hc | hc
      · simp [ih hc hmust']
      · simp [hc]
    | true =>
      have hc : (after E S).sawCompaction = true := by
        cases item with
        | eventMsg e =>
          cases e with
          | turnStarted event =>
            simp only [advance] at h
            split at h <;> exact h
          | threadRolledBack n => cases hadv
          | _ => cases hb
        | _ => cases hb
      simp [ih hc hmust']

end ModelContextScan

namespace ReplayState

def withWorldState (s : ReplayState) (replay : List (Option WorldStateItem)) : ReplayState :=
  { s with worldStateReplay := replay }

/-- With the metadata known, closing a segment takes over its world state, base and window. -/
theorem finalizeTaken_of_metadata (hp : s.pendingRollbackTurns = 0) (hm : s.HasMetadata) :
    s.finalizeTaken = { s with
      worldStateReplay := s.worldStateReplay ++ s.getSegment.worldStateReplay
      baseReplacementHistory := s.baseReplacementHistory.or s.getSegment.baseReplacementHistory
      window := s.window.or s.getSegment.window
      activeSegment := none } := by
  have hsome : s.previousTurnSettings.isNone = false := by
    simpa [Option.isSome_iff_ne_none] using hm.1
  rw [finalizeTaken_eq hp]
  simp [hsome, hm.2]

theorem finalizeTaken_window (h : s.window.isSome = true) : s.finalizeTaken.window.isSome = true := by
  unfold finalizeTaken
  split
  · rw [finalizeActiveSegment]
    split
    · split <;> exact h
    · simp [takeSegment, h]
  · exact h

theorem observe_rolloutSuffix (s : ReplayState) (item : RolloutItem) (newer : List RolloutItem) :
    (s.observe E item newer).rolloutSuffix = if s.captures item then newer else s.rolloutSuffix := by
  conv_lhs => rw [show s = s.withSuffix s.rolloutSuffix from rfl, observe_frame _ _ newer]
  rfl

theorem record_settled (hb : segment.baseReplacementHistory.isSome = true)
    (hw : segment.window.isSome = true) (item : RolloutItem) :
    (segment.record E item).baseReplacementHistory = segment.baseReplacementHistory ∧
      (segment.record E item).window = segment.window ∧
      ∃ extra, (segment.record E item).worldStateReplay = segment.worldStateReplay ++ extra := by
  obtain ⟨base, hbase⟩ := Option.isSome_iff_exists.1 hb
  obtain ⟨window, hwindow⟩ := Option.isSome_iff_exists.1 hw
  cases item with
  | compacted c => exact ⟨by simp [ActiveReplaySegment.record, hbase], by simp [ActiveReplaySegment.record, hwindow], _, rfl⟩
  | worldState w => exact ⟨rfl, rfl, _, rfl⟩
  | turnContext context =>
    refine ⟨?_, ?_, [], ?_⟩ <;> simp only [ActiveReplaySegment.record] <;> split <;> simp
  | eventMsg e => cases e <;> exact ⟨rfl, rfl, [], (List.append_nil _).symm⟩
  | _ => exact ⟨rfl, rfl, [], (List.append_nil _).symm⟩

/-- A record older than the compaction that the open segment starts from only
adds to the world state that the compaction resets. -/
theorem observe_settled (hp : s.pendingRollbackTurns = 0) (hm : s.HasMetadata)
    (hb : s.getSegment.baseReplacementHistory.isSome = true) (hw : s.getSegment.window.isSome = true)
    (hi : item.isBracket = false) (newer : List RolloutItem) :
    ∃ extra, (s.observe E item newer).finalizeTaken =
      s.finalizeTaken.withWorldState (s.finalizeTaken.worldStateReplay ++ extra) := by
  obtain ⟨hsegment, hframe⟩ := observe_segment (E := E) s hi newer
  obtain ⟨hbase, hwindow, extra, hworld⟩ := record_settled (E := E) hb hw item
  have hsuffix : (s.observe E item newer).rolloutSuffix = s.rolloutSuffix := by
    rw [observe_rolloutSuffix, captures, Option.isNone_eq_false_iff.2 hb]
    rfl
  have hs : s.observe E item newer =
      { s with activeSegment := (s.observe E item newer).activeSegment } := by
    have h := congrArg (fun r : ReplayState =>
      { r with activeSegment := (s.observe E item newer).activeSegment, rolloutSuffix := s.rolloutSuffix }) hframe
    rw [← hsuffix] at h
    exact h.trans (by rw [hsuffix]; rfl)
  have hp' : (s.observe E item newer).pendingRollbackTurns = 0 := by rw [hs]; exact hp
  have hm' : (s.observe E item newer).HasMetadata := by rw [hs]; exact hm
  refine ⟨extra, ?_⟩
  rw [finalizeTaken_of_metadata hp' hm', finalizeTaken_of_metadata hp hm, hsegment, hbase, hwindow, hworld, hs]
  simp [withWorldState]

/-- **The records before the compaction that the open segment starts from**, up
to the session metadata: with no turn to skip among those of the open turn,
they only add to the world state that the compaction resets. -/
theorem scan_settled (hp : s.pendingRollbackTurns = 0) (hm : s.HasMetadata)
    (hnone : s.baseReplacementHistory = none) (hb : s.getSegment.baseReplacementHistory.isSome = true)
    (hw : s.getSegment.window.isSome = true) (hnames : namesOpenTurn none (P ++ S) = true)
    (hturn : ∀ turnId, s.getSegment.turnId = some turnId → startedTurn P = some turnId)
    (hskips : ∀ item ∈ openRecords P, item.skipsTurns = false) (sessionMeta : SessionMetaLine)
    (newer : List RolloutItem) :
    ∃ extra, (s.scan E newer (P.reverse ++ [.sessionMeta sessionMeta])).finalizeTaken =
      s.finalizeTaken.withWorldState (s.finalizeTaken.worldStateReplay ++ extra) := by
  induction P using List.reverseRecOn generalizing s S newer with
  | nil =>
    refine ⟨[], ?_⟩
    rw [List.reverse_nil, List.nil_append, scan_cons, scan, ite_self, List.append_nil]
    rfl
  | append_singleton P item ih =>
    rw [List.append_assoc, List.singleton_append] at hnames
    rw [List.reverse_append, List.reverse_singleton, List.singleton_append, List.cons_append, scan_cons]
    cases hb' : item.isBracket with
    | false =>
      have hstarted : item.startedId = none := by
        cases item with
        | eventMsg e => cases e <;> first | rfl | cases hb'
        | _ => rfl
      obtain ⟨hsegment, hframe⟩ := observe_segment (E := E) s hb' newer
      obtain ⟨hbase, hwindow, -⟩ := record_settled (E := E) hb hw item
      obtain ⟨first, hfirst⟩ := observe_settled (E := E) hp hm hb hw hb' newer
      have hp' : (s.observe E item newer).pendingRollbackTurns = 0 :=
        (congrArg ReplayState.pendingRollbackTurns hframe).trans hp
      have hm' : (s.observe E item newer).HasMetadata :=
        ⟨(congrArg (fun r : ReplayState => r.previousTurnSettings.isSome) hframe).trans hm.1,
          fun hn => hm.2 ((congrArg ReplayState.referenceContextItem hframe).symm.trans hn)⟩
      have hnone' : (s.observe E item newer).baseReplacementHistory = none :=
        (congrArg ReplayState.baseReplacementHistory hframe).trans hnone
      have hturn' (turnId : String) (ht : (s.observe E item newer).getSegment.turnId = some turnId) :
          startedTurn P = some turnId := by
        rw [hsegment, ActiveReplaySegment.record_namedTurn, Option.or_eq_some_iff] at ht
        rcases ht with ht | ⟨-, ht⟩
        · simpa [startedTurn_append_singleton, hstarted] using hturn turnId ht
        · simpa using startedTurn_of_namesOpenTurn hnames ht
      have hskips' : ∀ i ∈ openRecords P, i.skipsTurns = false := by
        intro i hi
        exact hskips i (by simp [openRecords_append_singleton hstarted, hi])
      obtain ⟨extra, hextra⟩ := ih hp' hm' hnone' (by rw [hsegment, hbase]; exact hb)
        (by rw [hsegment, hwindow]; exact hw) hnames hturn' hskips' (item :: newer)
      refine ⟨first ++ extra, ?_⟩
      rw [if_neg (by simp [isResolved, hnone']), hextra, hfirst]
      simp [withWorldState]
    | true =>
      cases item with
      | eventMsg e =>
        cases e with
        | turnStarted event =>
          have hid (turnId : String) (ht : s.getSegment.turnId = some turnId) : event.turnId = turnId := by
            simpa [startedTurn_append_singleton, RolloutItem.startedId] using hturn turnId ht
          have hres : s.finalizeTaken.isResolved = true := by
            rw [finalizeTaken_of_metadata hp hm]
            simp [isResolved, hb, hm.1, hm.2]
          have hclosed : s.finalizeTaken.finalizeTaken = s.finalizeTaken := by
            rw [finalizeTaken_of_metadata hp hm]
            rfl
          refine ⟨[], ?_⟩
          rw [observe_started hid, if_pos hres, hclosed, List.append_nil]
          rfl
        | threadRolledBack n =>
          have hn : n.toNat = 0 := by
            have hzero := hskips (.eventMsg (.threadRolledBack n))
              (by rw [openRecords_append_singleton rfl]; simp)
            simpa [RolloutItem.skipsTurns] using hzero
          have hobs : s.observe E (.eventMsg (.threadRolledBack n)) newer = s := by
            simp only [observe, hn, hp]
            rw [show min (0 + 0) usizeMax = s.pendingRollbackTurns by rw [hp]; rfl]
          have hskips' : ∀ i ∈ openRecords P, i.skipsTurns = false := by
            intro i hi
            exact hskips i (by rw [openRecords_append_singleton rfl]; simp [hi])
          rw [hobs, if_neg (by simp [isResolved, hnone])]
          refine ih hp hm hnone hb hw hnames (fun turnId ht => ?_) hskips' _
          simpa [startedTurn_append_singleton, RolloutItem.startedId] using hturn turnId ht
        | _ => cases hb'
      | _ => cases hb'

end ReplayState

/-! ## The reconstruction -/

/-- A rollout that scans the same up to what a compaction resets reconstructs the same. -/
theorem reconstruct_eq {items items' replay}
    (h : scanRollout E items' = (scanRollout E items).withWorldState replay)
    (hw : (scanRollout E items).window.isSome = true)
    (hreplay : replay.reverse.foldl replayWorldState none =
      (scanRollout E items).worldStateReplay.reverse.foldl replayWorldState none) :
    reconstructHistoryFromRollout E items' = reconstructHistoryFromRollout E items := by
  obtain ⟨window, hwindow⟩ := Option.isSome_iff_exists.1 hw
  have hwindow' : (scanRollout E items').window = some window := by rw [h]; exact hwindow
  have hsuffix : replaySuffix E (scanRollout E items') = replaySuffix E (scanRollout E items) := by rw [h]; rfl
  have hworld : (scanRollout E items').worldStateReplay = replay := by rw [h]; rfl
  simp only [reconstructHistoryFromRollout, hwindow, hwindow', hsuffix, hworld, hreplay, Option.some_or]
  rw [h]
  rfl

namespace ModelContextScan

open ReplayState

/-- No rollback marker skips turns between the compaction the bounded scan stops at and the start of its turn: one with
neither compaction nor rollback marker after it but a whole user turn with its context. -/
def KeepsCutoff (E : Externals) (items : List RolloutItem) : Prop :=
  ∀ P compacted S, items = P ++ .compacted compacted :: S →
    compacted.replacementHistory.isSome = true → compacted.windowNumber.isSome = true →
    (∀ item ∈ S, item.isCompacted = false ∧ ∀ n, item ≠ .eventMsg (.threadRolledBack n)) →
    (after E S).sawCompletedTurnContext = true → ∀ item ∈ openRecords P, item.skipsTurns = false

theorem of_not_sawCompaction (hmust : (after E S).mustScanToStart = false)
    (h : (after E S).sawCompaction = false) :
    ∀ item ∈ S, item.isCompacted = false ∧ ∀ n, item ≠ .eventMsg (.threadRolledBack n) := by
  induction S with
  | nil => simp
  | cons item S ih =>
    obtain ⟨hmust', hadv, hafter⟩ := after_of_not_must hmust
    rw [hafter] at h
    have hitem : (item.isCompacted = false ∧ ∀ n, item ≠ .eventMsg (.threadRolledBack n)) ∧
        (after E S).sawCompaction = false := by
      cases item with
      | compacted c =>
        simp only [advance] at h hadv
        split at h
        · next hc => rw [if_pos hc] at hadv; cases hadv
        · cases h
      | eventMsg e =>
        cases e with
        | threadRolledBack n => cases hadv
        | turnStarted event =>
          refine ⟨⟨rfl, by simp⟩, ?_⟩
          simp only [advance] at h
          split at h <;> exact h
        | _ => exact ⟨⟨rfl, by simp⟩, h⟩
      | _ => exact ⟨⟨rfl, by simp⟩, h⟩
    intro i hi
    rcases List.mem_cons.1 hi with rfl | hi
    · exact hitem.1
    · exact ih hmust' hitem.2 i hi

theorem hasBoundedCutoff_iff : scan.hasBoundedCutoff = true ↔
    scan.mustScanToStart = false ∧ scan.sawCompaction = true ∧ scan.sawCompletedTurnContext = true := by
  simp [hasBoundedCutoff, and_assoc]

/-- What the reconstruction's scan knows where the bounded scan stops. -/
theorem scanned_of_cutoff (hsep : TurnsSeparate E (P ++ item :: S))
    (hstop : (after E (item :: S)).hasBoundedCutoff = true) (hrest : (after E S).hasBoundedCutoff = false) :
    ((scanned E (item :: S)).isResolved = true ∧ (scanned E (item :: S)).window.isSome = true) ∨
      ∃ compacted, item = .compacted compacted ∧ compacted.replacementHistory.isSome = true ∧
        compacted.windowNumber.isSome = true ∧
        (∀ i ∈ S, i.isCompacted = false ∧ ∀ n, i ≠ .eventMsg (.threadRolledBack n)) ∧
        (after E S).sawCompletedTurnContext = true ∧
        Agrees E P (item :: S) (after E (item :: S)) (scanned E (item :: S)) ∧
        (scanned E (item :: S)).baseReplacementHistory = none ∧
        ∃ replay, (scanned E (item :: S)).getSegment.worldStateReplay = replay ++ [none] := by
  obtain ⟨hmust, hcompaction, hcompleted⟩ := hasBoundedCutoff_iff.1 hstop
  obtain ⟨hmust', hadv, hafter⟩ := after_of_not_must hmust
  rcases agrees hsep hmust with hres | ⟨hres, hagrees⟩
  · exact .inl hres
  have hsplit : P ++ [item] ++ S = P ++ item :: S := by simp
  rcases agrees (P := P ++ [item]) (hsplit ▸ hsep) hmust' with ⟨hres', -⟩ | ⟨hres', hagrees'⟩
  · rw [scanned_cons, if_pos hres', hres'] at hres
    cases hres
  have hscanned : scanned E (item :: S) = (scanned E S).observe E item S := by
    rw [scanned_cons, if_neg (by simp [hres'])]
  cases hb : item.isBracket with
  | true =>
    -- The start of a turn leaves no segment open, so the scan is resolved.
    cases item with
    | eventMsg e =>
      cases e with
      | turnStarted event =>
        rw [(hagrees'.started hsep).1] at hscanned
        have hm := hagrees.completed hcompleted
        have hbase := hagrees.compaction hcompaction
        rw [hscanned, finalizeTaken_getSegment] at hbase
        rw [hscanned] at hres hm
        simp [isResolved, hm.1, hm.2] at hres
        simp [hres] at hbase
      | threadRolledBack n => cases hadv
      | _ => cases hb
    | _ => cases hb
  | false =>
    obtain ⟨-, hcompleted', hcompaction'⟩ := advance_local (E := E) hb hadv
    rw [hafter] at hcompleted hcompaction
    have hdone : (after E S).sawCompletedTurnContext = true := hcompleted'.symm.trans hcompleted
    have hfirst : (after E S).sawCompaction = false := by
      by_contra hc
      rw [hasBoundedCutoff_iff.2 ⟨hmust', by simpa using hc, hdone⟩] at hrest
      cases hrest
    obtain ⟨hsegment, hframe⟩ := observe_segment (E := E) (scanned E S) hb S
    have hcut : item.isReplacement = true := by
      have hc := hcompaction'.symm.trans hcompaction
      rwa [hfirst, Bool.false_or] at hc
    cases item with
    | compacted c =>
      refine .inr ⟨c, rfl, hcut, ?_, of_not_sawCompaction hmust' hfirst, hdone, hagrees, ?_, ?_⟩
      · simp only [advance] at hadv
        split at hadv
        · cases hadv
        · next hc =>
          simp only [Bool.or_eq_true, not_or, Option.isNone_iff_eq_none] at hc
          simpa [Option.isSome_iff_ne_none] using hc.2
      · rw [hscanned]
        exact (congrArg ReplayState.baseReplacementHistory hframe).trans (hagrees'.noCompaction hfirst).1
      · rw [hscanned, hsegment]
        exact ⟨_, rfl⟩
    | _ => cases hcut

/-- The scan of a rollout whose newest records hold a replacement history. -/
theorem scanRollout_append (hrep : S.any (·.isReplacement) = true) :
    scanRollout E (P ++ S) = (if (scanned E S).isResolved then scanned E S
      else (scanned E S).scan E S P.reverse).finalizeTaken := by
  obtain ⟨pre, hpre⟩ := scan_frame_of_replacement (E := E) (s := { rolloutSuffix := [] }) ⟨rfl, rfl⟩
    (show S.reverse.any (·.isReplacement) = true by simpa using hrep) []
  have hsame : ({ rolloutSuffix := P ++ S } : ReplayState).scan E [] S.reverse = scanned E S :=
    (hpre (P ++ S) []).trans (hpre [] []).symm
  rw [scanRollout, List.reverse_append, scan_append rfl, hsame, List.reverse_reverse, List.append_nil]

theorem finish_items (scan : ModelContextScan) (sessionMeta : SessionMetaLine)
    (h : ∀ item ∈ scan.itemsNewestFirst, item.isSessionMeta = false) :
    (if (scan.finish sessionMeta).head?.any (·.isSessionMeta) then scan.finish sessionMeta
      else .sessionMeta sessionMeta :: scan.finish sessionMeta) =
        .sessionMeta sessionMeta :: scan.itemsNewestFirst.reverse := by
  rw [finish]
  split
  · rfl
  · cases hr : scan.itemsNewestFirst.reverse with
    | nil => rfl
    | cons item items =>
      have hi := h item (List.mem_reverse.1 (hr ▸ List.mem_cons_self))
      simp [hi]

theorem not_isSessionMeta_of_mem {segments}
    (h : item ∈ lineageItems segments) : item.isSessionMeta = false := by
  obtain ⟨segment, -, hi⟩ := List.mem_flatMap.1 h
  simpa using List.mem_rtakeWhile_imp hi

end ModelContextScan

open ModelContextScan ReplayState in
/-- **The bounded model context reconstructs what the whole rollout does.** -/
theorem scanModelContextFromLineage_reconstruct (segments : List (List RolloutItem)) (sessionMeta : SessionMetaLine)
    (hsep : TurnsSeparate E (lineageItems segments)) (hkeeps : KeepsCutoff E (lineageItems segments)) :
    reconstructHistoryFromRollout E (scanModelContextFromLineage E segments sessionMeta) =
      reconstructHistoryFromRollout E (.sessionMeta sessionMeta :: lineageItems segments) := by
  obtain ⟨P, S, hitems, hcollect, hstop⟩ := collect_after (E := E) [] (lineageItems segments).reverse rfl
  rw [List.reverse_reverse] at hitems
  rw [List.append_nil] at hcollect
  have hout : scanModelContextFromLineage E segments sessionMeta = .sessionMeta sessionMeta :: S := by
    have hmeta : ∀ item ∈ (after E S).itemsNewestFirst, item.isSessionMeta = false := by
      intro item hi
      rw [after_items, List.mem_reverse] at hi
      exact not_isSessionMeta_of_mem (show item ∈ lineageItems segments by rw [hitems]; simp [hi])
    have hfinish := finish_items (after E S) sessionMeta hmeta
    rw [after_items, List.reverse_reverse] at hfinish
    rw [scanModelContextFromLineage, show (({} : ModelContextScan).collect E (lineageItems segments).reverse) =
      after E S from hcollect]
    exact hfinish
  rw [hout, hitems]
  rcases hstop with rfl | ⟨item, rest, hS, hcut, hrest⟩
  · rfl
  rw [List.append_nil] at hS
  subst hS
  rw [hitems] at hsep hkeeps
  obtain ⟨hmust, hcompaction, -⟩ := hasBoundedCutoff_iff.1 hcut
  have hrep := replacement_of_sawCompaction hcompaction hmust
  have hfull := scanRollout_append (E := E) (P := .sessionMeta sessionMeta :: P) hrep
  have hbounded := scanRollout_append (E := E) (P := [.sessionMeta sessionMeta]) hrep
  rw [List.cons_append] at hfull
  rw [List.singleton_append] at hbounded
  rcases scanned_of_cutoff hsep hcut hrest with ⟨hres, hw⟩ | ⟨c, rfl, hc, hn, hS, hdone, hagrees, hnone, replay, hreplay⟩
  · rw [if_pos hres] at hfull hbounded
    have hsame : scanRollout E (.sessionMeta sessionMeta :: (P ++ item :: rest)) =
        scanRollout E (.sessionMeta sessionMeta :: item :: rest) := hfull.trans hbounded.symm
    refine (reconstruct_eq hsame ?_ rfl).symm
    rw [hbounded]
    exact finalizeTaken_window hw
  · have hunresolved : ¬ (scanned E (.compacted c :: rest)).isResolved = true := by simp [isResolved, hnone]
    have hm := hagrees.completed (hasBoundedCutoff_iff.1 hcut).2.2
    have hb : (scanned E (.compacted c :: rest)).getSegment.baseReplacementHistory.isSome = true := by
      simpa [hnone] using hagrees.compaction hcompaction
    have hw := hagrees.windows.2 hb
    rw [if_neg hunresolved] at hfull hbounded
    rw [List.reverse_singleton, scan_cons, scan, ite_self] at hbounded
    rw [List.reverse_cons] at hfull
    obtain ⟨extra, hextra⟩ := scan_settled (E := E) hagrees.pending hm hnone hb hw hsep.namesOpenTurn hagrees.turn
      (hkeeps P c rest rfl hc hn hS hdone) sessionMeta (.compacted c :: rest)
    have hclosed := finalizeTaken_of_metadata hagrees.pending hm
    have hbounded' : scanRollout E (.sessionMeta sessionMeta :: .compacted c :: rest) =
        (scanned E (.compacted c :: rest)).finalizeTaken := hbounded
    refine (reconstruct_eq (hfull.trans (hextra.trans (by rw [hbounded']))) ?_ ?_).symm
    · rw [hbounded', hclosed]
      simp [hw]
    · -- The compaction resets whatever the older records of its turn say.
      rw [hbounded', hclosed, hreplay]
      simp [replayWorldState]

theorem keepsCutoff_of_not_skipsTurns {items} (h : ∀ item ∈ items, item.skipsTurns = false) :
    ModelContextScan.KeepsCutoff E items := by
  rintro P c S rfl - - - - item hi
  exact h item (List.mem_append_left _ ((List.rtakeWhile_suffix _ _).mem hi))

/-- A turn with a message of the user, as a paginated rollout records it. -/
def paginatedTurn (turnId : String) (rest : List RolloutItem) : List RolloutItem :=
  [.eventMsg (.turnStarted { turnId }), .turnContext { turnId := some turnId, model := "m" },
    .responseItem (.message none "user" [.inputText "hello".toList] none none),
    .eventMsg (.itemCompleted turnId (.userMessage "u"))] ++ rest ++ [.eventMsg (.turnComplete { turnId })]

/-- A turn that compacts, and a turn of the thread forked from it. -/
def forkedTurns : List (List RolloutItem) :=
  [.sessionMeta {} :: paginatedTurn "t1"
      [.compacted { message := [], replacementHistory := some [], windowNumber := some 1 }],
    .sessionMeta {} :: paginatedTurn "t2" []]

theorem scanModelContextFromLineage_forkedTurns :
    reconstructHistoryFromRollout .plain (scanModelContextFromLineage .plain forkedTurns {}) =
      reconstructHistoryFromRollout .plain (.sessionMeta {} :: lineageItems forkedTurns) :=
  scanModelContextFromLineage_reconstruct forkedTurns {} (by decide +kernel) (keepsCutoff_of_not_skipsTurns (by decide))

/-- A turn, its rollback and a compaction outside it, and a later turn. -/
def rolledBackTurn : List RolloutItem :=
  paginatedTurn "t1" [] ++ [.eventMsg (.threadRolledBack 1),
    .compacted { message := [], replacementHistory := some [.compactionTrigger], windowNumber := some 1 }] ++
  paginatedTurn "t2" []

/-- The whole rollout skips the compaction with the turn, the bounded context starts from it. -/
theorem scanModelContextFromLineage_rolledBackTurn :
    TurnsSeparate .plain (lineageItems [rolledBackTurn]) ∧
      reconstructHistoryFromRollout .plain (scanModelContextFromLineage .plain [rolledBackTurn] {}) ≠
        reconstructHistoryFromRollout .plain (.sessionMeta {} :: lineageItems [rolledBackTurn]) := by
  -- one evaluation for both, which share most of their terms
  obtain ⟨hseparate, hhistory⟩ : TurnsSeparate .plain (lineageItems [rolledBackTurn]) ∧
      (reconstructHistoryFromRollout .plain (scanModelContextFromLineage .plain [rolledBackTurn] {})).history ≠
        (reconstructHistoryFromRollout .plain (.sessionMeta {} :: lineageItems [rolledBackTurn])).history := by
    decide +kernel
  exact ⟨hseparate, fun h => hhistory (congrArg RolloutReconstruction.history h)⟩

end Codex
