/-
Facts about the scan of `Reconstruct`. What is left to replay is the one part
of its state that depends on where the scan stands; everything else is a
function of the records seen (`observe_frame`, `scan_frame`). A bracketed turn
passes through the open segment alone until its `TurnStarted` closes it, so a
turn that a rollback marker skips leaves nothing behind but the records to
replay (`scan_rolledBack`).
-/
import Codex.Reconstruct

namespace Codex

variable {E : Externals}

namespace RolloutItem

def isReplacement : RolloutItem → Bool
  | .compacted c => c.replacementHistory.isSome
  | _ => false

def isLegacyCompaction : RolloutItem → Bool
  | .compacted c => c.replacementHistory.isNone
  | _ => false

/-- A record that makes its segment count as a user turn. -/
def countsAsUserTurn (E : Externals) : RolloutItem → Bool
  | .responseItem item => isUserTurnBoundary E item
  | .interAgentCommunication _ => true
  | .eventMsg (.userMessage _) => true
  | _ => false

/-- The records that bracket turns from outside: a start, or a rollback marker. -/
def isBracket : RolloutItem → Bool
  | .eventMsg (.turnStarted _) | .eventMsg (.threadRolledBack _) => true
  | _ => false

end RolloutItem

namespace ReplayState

/-! ## What is left to replay -/

def withSuffix (s : ReplayState) (x : List RolloutItem) : ReplayState := { s with rolloutSuffix := x }

variable (s : ReplayState) (x : List RolloutItem)

@[simp] theorem withSuffix_isResolved : (s.withSuffix x).isResolved = s.isResolved := rfl

@[simp] theorem withSuffix_activeSegment : (s.withSuffix x).activeSegment = s.activeSegment := rfl

@[simp] theorem withSuffix_withSuffix (y : List RolloutItem) :
    (s.withSuffix x).withSuffix y = s.withSuffix y := rfl

/-- The scan takes the records after `item` as those left to replay. -/
def captures (s : ReplayState) (item : RolloutItem) : Bool :=
  s.getSegment.baseReplacementHistory.isNone && item.isReplacement

theorem finalizeActiveSegment_frame (segment : ActiveReplaySegment) (x : List RolloutItem) :
    (s.withSuffix x).finalizeActiveSegment segment = (s.finalizeActiveSegment segment).withSuffix x := by
  unfold finalizeActiveSegment
  have hpending : (s.withSuffix x).pendingRollbackTurns = s.pendingRollbackTurns := rfl
  rw [hpending]
  split
  · split <;> rfl
  · rfl

theorem finalizeTaken_frame : (s.withSuffix x).finalizeTaken = s.finalizeTaken.withSuffix x := by
  unfold finalizeTaken
  rw [withSuffix_activeSegment]
  split
  · next segment _ => exact finalizeActiveSegment_frame s.takeSegment segment x
  · rfl

theorem finalizeTaken_rolloutSuffix : s.finalizeTaken.rolloutSuffix = s.rolloutSuffix := by
  conv_lhs => rw [show s = s.withSuffix s.rolloutSuffix from rfl, finalizeTaken_frame]
  rfl

theorem observe_frame (item : RolloutItem) (newer newer' x : List RolloutItem) :
    (s.withSuffix x).observe E item newer' =
      (s.observe E item newer).withSuffix (if s.captures item then newer' else x) := by
  cases item with
  | compacted c => rfl
  | eventMsg e =>
    cases e with
    | turnStarted event =>
      simp only [observe, captures, RolloutItem.isReplacement, Bool.and_false]
      by_cases h : (s.activeSegment.any fun segment =>
          turnIdsAreCompatible segment.turnId (some event.turnId)) = true
      · rw [if_pos h, if_pos (by exact h)]
        exact finalizeTaken_frame s x
      · rw [if_neg h, if_neg (by exact h)]
        rfl
    | turnAborted event =>
      simp only [observe, captures, RolloutItem.isReplacement, Bool.and_false]
      by_cases h : (s.activeSegment.isSome || event.turnId.isSome) = true
      · rw [if_pos h, if_pos (by exact h)]
        rfl
      · rw [if_neg h, if_neg (by exact h)]
        rfl
    | _ =>
      simp only [captures, RolloutItem.isReplacement, Bool.and_false]
      rfl
  | _ =>
    simp only [captures, RolloutItem.isReplacement, Bool.and_false]
    rfl

theorem scan_cons (newer : List RolloutItem) (item : RolloutItem) (older : List RolloutItem) :
    s.scan E newer (item :: older) =
      if (s.observe E item newer).isResolved then s.observe E item newer
      else (s.observe E item newer).scan E (item :: newer) older := rfl

/-- A scan of more records continues where the first ones left it, unless they resolved it. -/
theorem scan_append {s : ReplayState} (h : s.isResolved = false) (newer first older : List RolloutItem) :
    s.scan E newer (first ++ older) =
      if (s.scan E newer first).isResolved then s.scan E newer first
      else (s.scan E newer first).scan E (first.reverse ++ newer) older := by
  induction first generalizing s newer with
  | nil => simp [scan, h]
  | cons item first ih =>
    rw [List.cons_append, scan_cons, scan_cons]
    by_cases hres : (s.observe E item newer).isResolved = true
    · rw [if_pos hres, if_pos hres, if_pos hres]
    · rw [if_neg hres, if_neg hres, ih (by simpa using hres)]
      simp

/-- **The scan up to what is left to replay**: the records after the newest
compaction it captured, or what was left before when it captured none. -/
theorem scan_frame (newer older : List RolloutItem) : ∃ captured : Option (List RolloutItem), ∀ x extra,
      (s.withSuffix x).scan E (newer ++ extra) older =
        (s.scan E newer older).withSuffix ((captured.map (· ++ extra)).getD x) := by
  induction older generalizing s newer with
  | nil => exact ⟨none, fun x extra => rfl⟩
  | cons item older ih =>
    by_cases hres : (s.observe E item newer).isResolved
    · refine ⟨if s.captures item then some newer else none, fun x extra => ?_⟩
      rw [scan_cons, scan_cons, observe_frame _ _ newer, withSuffix_isResolved, if_pos hres, if_pos hres]
      split <;> rfl
    · obtain ⟨captured, hc⟩ := ih (s.observe E item newer) (item :: newer)
      refine ⟨captured.or (if s.captures item then some newer else none), fun x extra => ?_⟩
      rw [scan_cons, scan_cons, observe_frame _ _ newer, withSuffix_isResolved, if_neg hres, if_neg hres]
      rw [← List.cons_append, hc]
      cases captured with
      | some c => rfl
      | none => split <;> rfl

/-- A scan that meets no replacement history leaves what is left to replay as it was. -/
theorem scan_frame_of_not_replacement {s : ReplayState} {older : List RolloutItem}
    (h : ∀ item ∈ older, item.isReplacement = false) (newer newer' x : List RolloutItem) :
    (s.withSuffix x).scan E newer' older = (s.scan E newer older).withSuffix x := by
  induction older generalizing s newer newer' with
  | nil => rfl
  | cons item older ih =>
    have hcap : s.captures item = false := by simp [captures, h item (by simp)]
    rw [scan_cons, scan_cons, observe_frame _ _ newer, hcap, withSuffix_isResolved]
    by_cases hres : (s.observe E item newer).isResolved
    · rw [if_pos hres, if_pos hres]; rfl
    · rw [if_neg hres, if_neg hres]
      exact ih (fun i hi => h i (by simp [hi])) _ _

/-- Neither the scan nor its open segment holds a replacement history yet. -/
def NoBase (s : ReplayState) : Prop :=
  s.baseReplacementHistory = none ∧ s.getSegment.baseReplacementHistory = none

theorem finalizeTaken_noBase {s : ReplayState} (h : s.NoBase) : s.finalizeTaken.NoBase := by
  obtain ⟨h1, h2⟩ := h
  simp only [finalizeTaken]
  split
  · next segment hs =>
    simp only [getSegment, hs, Option.getD_some] at h2
    simp only [finalizeActiveSegment, NoBase]
    split
    · split <;> exact ⟨h1, rfl⟩
    · exact ⟨by simp [takeSegment, h1, h2], rfl⟩
  · exact ⟨h1, h2⟩

theorem setSegment_noBase {s : ReplayState} (h : s.NoBase) {segment : ActiveReplaySegment}
    (hs : segment.baseReplacementHistory = none) : (s.setSegment segment).NoBase := ⟨h.1, hs⟩

theorem record_base {segment : ActiveReplaySegment} {item : RolloutItem} (h : item.isReplacement = false) :
    (segment.record E item).baseReplacementHistory = segment.baseReplacementHistory := by
  cases item with
  | compacted c =>
    have hr : c.replacementHistory = none := by simpa [RolloutItem.isReplacement] using h
    simp [ActiveReplaySegment.record, hr]
  | eventMsg e => cases e <;> rfl
  | turnContext ctx =>
    simp only [ActiveReplaySegment.record]
    split <;> rfl
  | _ => rfl

theorem observe_noBase {s : ReplayState} (h : s.NoBase) {item : RolloutItem} (hi : item.isReplacement = false)
    (newer : List RolloutItem) : (s.observe E item newer).NoBase := by
  have hset := setSegment_noBase h (((record_base hi : (s.getSegment.record E item).baseReplacementHistory = _)).trans h.2)
  cases item with
  | compacted c => exact hset
  | eventMsg e =>
    cases e with
    | turnStarted event =>
      simp only [observe]
      split
      · exact finalizeTaken_noBase h
      · exact h
    | turnAborted event =>
      simp only [observe]
      split
      · exact hset
      · exact h
    | turnComplete | userMessage => exact hset
    | _ => exact h
  | turnContext | worldState | responseItem | interAgentCommunication => exact hset
  | sessionMeta | interAgentCommunicationMetadata => exact h

theorem not_isResolved_of_noBase {s : ReplayState} (h : s.NoBase) : s.isResolved = false := by
  simp [isResolved, h.1]

/-- A scan that meets a replacement history replays what comes after a record it has seen. -/
theorem scan_frame_of_replacement {s : ReplayState} (hs : s.NoBase) {older : List RolloutItem}
    (h : older.any (·.isReplacement) = true) (newer : List RolloutItem) :
    ∃ pre : List RolloutItem, ∀ x extra,
      (s.withSuffix x).scan E (newer ++ extra) older = (s.scan E newer older).withSuffix (pre ++ extra) := by
  induction older generalizing s newer with
  | nil => cases h
  | cons item older ih =>
    by_cases hi : item.isReplacement = true
    · have hcap : s.captures item = true := by simp [captures, hs.2, hi]
      by_cases hres : (s.observe E item newer).isResolved
      · refine ⟨newer, fun x extra => ?_⟩
        rw [scan_cons, scan_cons, observe_frame _ _ newer, hcap, withSuffix_isResolved, if_pos hres, if_pos hres]
        rfl
      · obtain ⟨captured, hc⟩ := scan_frame (E := E) (s.observe E item newer) (item :: newer) older
        refine ⟨captured.getD newer, fun x extra => ?_⟩
        rw [scan_cons, scan_cons, observe_frame _ _ newer, hcap, withSuffix_isResolved, if_neg hres, if_neg hres]
        rw [← List.cons_append, if_pos rfl, hc]
        cases captured <;> rfl
    · have hi : item.isReplacement = false := by simpa using hi
      have hcap : s.captures item = false := by simp [captures, hi]
      have hnb := observe_noBase (E := E) hs hi newer
      obtain ⟨pre, hpre⟩ := ih hnb (by simpa [hi] using h) (item :: newer)
      refine ⟨pre, fun x extra => ?_⟩
      have hres : ¬ (s.observe E item newer).isResolved = true := by simp [not_isResolved_of_noBase hnb]
      rw [scan_cons, scan_cons, observe_frame _ _ newer, hcap, withSuffix_isResolved, if_neg hres,
        if_neg hres]
      exact hpre x extra

end ReplayState

/-! ## Bracketed turns -/

/-- A turn with all its records between its `TurnStarted` and its `TurnComplete`. -/
structure BracketedTurn where
  started : TurnStartedEvent
  body : List RolloutItem
  complete : TurnCompleteEvent
  sameTurn : complete.turnId = started.turnId
  bodyLocal : ∀ item ∈ body, item.isBracket = false

namespace BracketedTurn

def items (turn : BracketedTurn) : List RolloutItem :=
  .eventMsg (.turnStarted turn.started) :: (turn.body ++ [.eventMsg (.turnComplete turn.complete)])

def isUserTurn (E : Externals) (turn : BracketedTurn) : Bool :=
  turn.body.any (·.countsAsUserTurn E)

/-- The segment the scan has open when it reaches the turn's start. -/
def segment (E : Externals) (turn : BracketedTurn) : ActiveReplaySegment :=
  turn.body.reverse.foldl (·.record E ·) { turnId := some turn.complete.turnId }

end BracketedTurn

namespace ActiveReplaySegment

theorem record_turnId {segment : ActiveReplaySegment} {id : String} (h : segment.turnId = some id)
    (item : RolloutItem) : (segment.record E item).turnId = some id := by
  cases item with
  | eventMsg e => cases e <;> simp [record, h]
  | turnContext ctx =>
    simp only [record, h]
    split <;> rfl
  | _ => simpa [record] using h

theorem record_counts (segment : ActiveReplaySegment) (item : RolloutItem) :
    (segment.record E item).countsAsUserTurn = (segment.countsAsUserTurn || item.countsAsUserTurn E) := by
  cases item with
  | eventMsg e => cases e <;> simp [record, RolloutItem.countsAsUserTurn]
  | turnContext ctx =>
    simp only [record, RolloutItem.countsAsUserTurn, Bool.or_false]
    split <;> rfl
  | _ => simp [record, RolloutItem.countsAsUserTurn]

theorem foldl_record_turnId {segment : ActiveReplaySegment} {id : String} (h : segment.turnId = some id)
    (items : List RolloutItem) : (items.foldl (·.record E ·) segment).turnId = some id := by
  induction items generalizing segment with
  | nil => exact h
  | cons item items ih => exact ih (record_turnId h item)

theorem foldl_record_counts (segment : ActiveReplaySegment) (items : List RolloutItem) :
    (items.foldl (·.record E ·) segment).countsAsUserTurn =
      (segment.countsAsUserTurn || items.any (·.countsAsUserTurn E)) := by
  induction items generalizing segment with
  | nil => simp
  | cons item items ih => rw [List.foldl_cons, ih, record_counts, List.any_cons, Bool.or_assoc]

end ActiveReplaySegment

theorem BracketedTurn.segment_turnId (turn : BracketedTurn) :
    (turn.segment E).turnId = some turn.started.turnId := by
  rw [← turn.sameTurn]
  exact ActiveReplaySegment.foldl_record_turnId rfl _

theorem BracketedTurn.segment_counts (turn : BracketedTurn) :
    (turn.segment E).countsAsUserTurn = turn.isUserTurn E := by
  rw [segment, ActiveReplaySegment.foldl_record_counts, isUserTurn, List.any_reverse, Bool.false_or]

variable {s : ReplayState}

namespace ReplayState

/-- A record inside an open turn changes its segment, and what is left to replay. -/
theorem observe_local {segment} (hs : s.activeSegment = some segment)
    {item} (hi : item.isBracket = false) (newer : List RolloutItem) :
    s.observe E item newer = (s.setSegment (segment.record E item)).withSuffix
      (if segment.baseReplacementHistory.isNone && item.isReplacement then newer else s.rolloutSuffix) := by
  have hseg : s.getSegment = segment := by simp [getSegment, hs]
  have hself : s.setSegment segment = s := by simp [setSegment, ← hs]
  cases item with
  | eventMsg e =>
    simp only [RolloutItem.isReplacement, Bool.and_false]
    cases e with
    | turnStarted | threadRolledBack => cases hi
    | turnAborted event =>
      simp only [observe, hs, Option.isSome_some, Bool.true_or, if_true, hseg]
      rfl
    | turnComplete | userMessage => rw [← hseg]; rfl
    | _ => exact hself.symm
  | sessionMeta | interAgentCommunicationMetadata =>
    simp only [RolloutItem.isReplacement, Bool.and_false]
    exact hself.symm
  | compacted c => rw [← hseg]; rfl
  | turnContext | worldState | responseItem | interAgentCommunication =>
    simp only [RolloutItem.isReplacement, Bool.and_false]
    rw [← hseg]
    rfl

/-- A record inside a turn, open or not yet opened, changes only its segment and what is left to replay. -/
theorem observe_segment (s : ReplayState) {item} (hi : item.isBracket = false) (newer : List RolloutItem) :
    (s.observe E item newer).getSegment = s.getSegment.record E item ∧
      (s.observe E item newer).takeSegment.withSuffix [] = s.takeSegment.withSuffix [] := by
  cases item with
  | eventMsg e =>
    cases e with
    | turnStarted | threadRolledBack => cases hi
    | turnAborted event =>
      simp only [observe]
      split
      · exact ⟨rfl, rfl⟩
      · next h =>
        simp only [Bool.or_eq_true, not_or, Option.not_isSome_iff_eq_none] at h
        refine ⟨?_, rfl⟩
        simp [getSegment, h.1, ActiveReplaySegment.record, h.2]
    | _ => exact ⟨rfl, rfl⟩
  | _ => exact ⟨rfl, rfl⟩

/-- What a scan of some records leaves to replay: `old` when they hold no
replacement history, else records of theirs and the newer ones. -/
def Leaves (records : List RolloutItem) (newer old left : List RolloutItem) : Prop :=
  (left = old ∧ records.any (·.isReplacement) = false) ∨
    (records.any (·.isReplacement) = true ∧ ∃ post, left = post ++ newer ∧ ∀ item ∈ post, item ∈ records)

/-- The records inside an open turn, newest first. -/
theorem scan_local {segment : ActiveReplaySegment} (hs : s.activeSegment = some segment)
    (hres : s.isResolved = false) {body : List RolloutItem} (hb : ∀ item ∈ body, item.isBracket = false)
    (newer older : List RolloutItem) :
    ∃ x, s.scan E newer (body ++ older) =
      ((s.setSegment (body.foldl (·.record E ·) segment)).withSuffix x).scan E (body.reverse ++ newer) older ∧
      ((x = s.rolloutSuffix ∧ (segment.baseReplacementHistory = none → body.any (·.isReplacement) = false)) ∨
        (body.any (·.isReplacement) = true ∧ ∃ post, x = post ++ newer ∧ ∀ item ∈ post, item ∈ body)) := by
  induction body generalizing s segment newer with
  | nil =>
    refine ⟨s.rolloutSuffix, ?_, .inl ⟨rfl, fun _ => rfl⟩⟩
    rw [List.foldl_nil, show s.setSegment segment = s by simp [setSegment, ← hs]]
    rfl
  | cons item body ih =>
    have hx := observe_local (E := E) hs (hb item (by simp)) newer
    have hres' : (s.observe E item newer).isResolved = false := by rw [hx]; exact hres
    obtain ⟨y, hy, hleft⟩ := ih (s := s.observe E item newer)
      (show _ = some (segment.record E item) by rw [hx]; rfl) hres' (fun i h => hb i (by simp [h])) (item :: newer)
    refine ⟨y, ?_, ?_⟩
    · rw [List.cons_append, scan_cons, if_neg (by simp [hres']), hy, hx]
      simp [setSegment, withSuffix]
    · rcases hleft with ⟨rfl, hnone⟩ | ⟨hany, post, rfl, hpost⟩
      · rw [hx]
        by_cases hcap : (segment.baseReplacementHistory.isNone && item.isReplacement) = true
        · rw [if_pos hcap]
          rw [Bool.and_eq_true] at hcap
          exact .inr ⟨by simp [hcap.2], [], rfl, by simp⟩
        · rw [if_neg hcap]
          refine .inl ⟨rfl, fun hbase => ?_⟩
          have hi : item.isReplacement = false := by simpa [hbase] using hcap
          rw [List.any_cons, hi, Bool.false_or]
          exact hnone ((record_base hi).trans hbase)
      · refine .inr ⟨by simp [hany], post ++ [item], by simp, ?_⟩
        intro i hi
        rcases List.mem_append.1 hi with hi | hi
        · exact List.mem_cons_of_mem _ (hpost i hi)
        · simp_all

/-- **A whole turn** reaches its start as one segment, which is closed there. -/
theorem scan_turn (hs : s.activeSegment = none) (hres : s.isResolved = false)
    (turn : BracketedTurn) (newer older : List RolloutItem) :
    ∃ x, s.scan E newer (turn.items.reverse ++ older) =
        (if (s.finalizeActiveSegment (turn.segment E)).isResolved then
          (s.finalizeActiveSegment (turn.segment E)).withSuffix x
        else ((s.finalizeActiveSegment (turn.segment E)).withSuffix x).scan E (turn.items ++ newer) older) ∧
      Leaves turn.items newer s.rolloutSuffix x := by
  have hrev : turn.items.reverse = .eventMsg (.turnComplete turn.complete) ::
      (turn.body.reverse ++ [.eventMsg (.turnStarted turn.started)]) := by simp [BracketedTurn.items]
  have hopen : s.observe E (.eventMsg (.turnComplete turn.complete)) newer =
      s.setSegment { turnId := some turn.complete.turnId } := by
    simp [observe, getSegment, hs, ActiveReplaySegment.record]
  have hlocal : ∀ item ∈ turn.body.reverse, item.isBracket = false := by
    intro item hi
    exact turn.bodyLocal item (List.mem_reverse.1 hi)
  obtain ⟨x, hx, hleft⟩ := scan_local (E := E) (s := s.setSegment { turnId := some turn.complete.turnId }) rfl
    hres hlocal (.eventMsg (.turnComplete turn.complete) :: newer) (.eventMsg (.turnStarted turn.started) :: older)
  have hstart (y : ReplayState) (hy : y.activeSegment = some (turn.segment E)) (newer : List RolloutItem) :
      y.observe E (.eventMsg (.turnStarted turn.started)) newer =
        y.takeSegment.finalizeActiveSegment (turn.segment E) := by
    have hcompat : turnIdsAreCompatible (turn.segment E).turnId (some turn.started.turnId) = true := by
      simp [turn.segment_turnId, turnIdsAreCompatible]
    simp only [observe, hy, Option.any_some, hcompat, if_true, finalizeTaken]
  have hclosed (a b : ActiveReplaySegment) :
      (((s.setSegment a).setSegment b).withSuffix x).takeSegment = s.withSuffix x := by
    simp [setSegment, withSuffix, takeSegment, hs]
  have hres' : ¬ (s.setSegment { turnId := some turn.complete.turnId }).isResolved = true := by
    rw [show (s.setSegment _).isResolved = s.isResolved from rfl, hres]
    simp
  have hnewer : .eventMsg (.turnStarted turn.started) ::
      (turn.body.reverse.reverse ++ .eventMsg (.turnComplete turn.complete) :: newer) = turn.items ++ newer := by
    simp [BracketedTurn.items]
  have hany : turn.items.any (·.isReplacement) = turn.body.any (·.isReplacement) := by
    simp [BracketedTurn.items, RolloutItem.isReplacement]
  refine ⟨x, ?_, ?_⟩
  · rw [hrev, List.cons_append, scan_cons, hopen, if_neg hres', List.append_assoc, List.singleton_append, hx,
      scan_cons, hstart _ rfl, hnewer]
    rw [hclosed, finalizeActiveSegment_frame, withSuffix_isResolved]
  · rw [Leaves, hany]
    rcases hleft with ⟨rfl, hnone⟩ | ⟨hrep, post, rfl, hpost⟩
    · exact .inl ⟨rfl, by simpa using hnone rfl⟩
    · refine .inr ⟨by simpa using hrep, post ++ [.eventMsg (.turnComplete turn.complete)], by simp, ?_⟩
      intro item hi
      simp only [BracketedTurn.items, List.mem_cons, List.mem_append] at hi ⊢
      rcases hi with hi | hi
      · exact .inr (.inl (List.mem_reverse.1 (hpost item hi)))
      · exact .inr (.inr hi)

theorem Leaves.append {older newest newer old mid left} (h₁ : Leaves newest newer old mid)
    (h₂ : Leaves older (newest ++ newer) mid left) : Leaves (older ++ newest) newer old left := by
  rcases h₂ with ⟨rfl, hnone⟩ | ⟨hany, post, rfl, hpost⟩
  · rcases h₁ with ⟨rfl, hnone'⟩ | ⟨hany', post, rfl, hpost⟩
    · exact .inl ⟨rfl, by simp [hnone, hnone']⟩
    · exact .inr ⟨by simp [hany'], post, rfl, fun i hi => by simp [hpost i hi]⟩
  · refine .inr ⟨by simp [hany], post ++ newest, by simp, fun i hi => ?_⟩
    rcases List.mem_append.1 hi with hi | hi
    · simp [hpost i hi]
    · simp [hi]

def withPending (s : ReplayState) (n : Nat) : ReplayState := { s with pendingRollbackTurns := n }

@[simp] theorem withPending_isResolved (s : ReplayState) (n : Nat) :
    (s.withPending n).isResolved = s.isResolved := rfl

/-- **Turns skipped by rollback markers** leave nothing in the scan's state but the records to replay. -/
theorem scan_rolledBack (hs : s.activeSegment = none) (hres : s.isResolved = false)
    {turns : List BracketedTurn} (huser : ∀ turn ∈ turns, turn.isUserTurn E = true) {pending : Nat}
    (hp : s.pendingRollbackTurns = pending + turns.length) (newer older : List RolloutItem) :
    ∃ x, s.scan E newer ((turns.flatMap BracketedTurn.items).reverse ++ older) =
        ((s.withPending pending).withSuffix x).scan E (turns.flatMap BracketedTurn.items ++ newer) older ∧
      Leaves (turns.flatMap BracketedTurn.items) newer s.rolloutSuffix x := by
  induction turns using List.reverseRecOn generalizing s newer with
  | nil =>
    refine ⟨s.rolloutSuffix, ?_, .inl ⟨rfl, rfl⟩⟩
    simp only [List.length_nil, Nat.add_zero] at hp
    simp [withSuffix, withPending, ← hp]
  | append_singleton turns turn ih =>
    obtain ⟨x, hx, hleft⟩ := scan_turn (E := E) hs hres turn newer
      ((turns.flatMap BracketedTurn.items).reverse ++ older)
    have hfin : s.finalizeActiveSegment (turn.segment E) = s.withPending (pending + turns.length) := by
      have hp' : s.pendingRollbackTurns = pending + turns.length + 1 := by
        rw [hp, List.length_append, List.length_singleton, Nat.add_assoc]
      rw [finalizeActiveSegment, if_pos (by omega), turn.segment_counts, huser turn (by simp), if_pos rfl, hp']
      rfl
    obtain ⟨y, hy, hleft'⟩ := ih (s := (s.withPending (pending + turns.length)).withSuffix x) hs hres
      (fun t ht => huser t (by simp [ht])) rfl (turn.items ++ newer)
    rw [hfin] at hx
    rw [List.flatMap_append, List.flatMap_singleton]
    refine ⟨y, ?_, hleft.append hleft'⟩
    rw [List.reverse_append, List.append_assoc, hx, withPending_isResolved, if_neg (by simp [hres]), hy,
      List.append_assoc]
    rfl

end ReplayState

end Codex
