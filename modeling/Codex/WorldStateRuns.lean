/-
The world state of a session and the one its rollout restores. The live session sets a baseline
and records what changed; a resumed one scans the rollout from its end until the resume metadata is
known, and replays the world-state records that it met.

Each step runs to its end and its records are persisted; a resume
may find only the first of them. Nothing is rolled back.

Source: core/src/session/mod.rs, turn.rs and rollout_reconstruction.rs.
-/
import Codex.ModelContextFacts
import Codex.WorldStatePatches

namespace Codex

/-! ## The session -/

/-- What the scan collects of a record: a compaction is `none`. -/
def RolloutItem.worldStateRecord : RolloutItem → Option (Option WorldStateItem)
  | .compacted _ => some none
  | .worldState record => some (some record)
  | _ => none

/-- `turn` is the `world_state` of `run_turn`. What is recorded in between is not put into the history. -/
structure WorldStateSession where
  history : ContextManager := {}
  turn : Option WorldState := none
  rollout : List RolloutItem := []

namespace WorldStateSession

def persist (s : WorldStateSession) (items : List RolloutItem) : WorldStateSession :=
  { s with rollout := s.rollout ++ items }

/-- `set_world_state_baseline`, with the record of the full snapshot. -/
def setFull (s : WorldStateSession) (world : WorldState) : WorldStateSession :=
  { s with history := { s.history with worldStateBaseline := some world.snapshot } }.persist
    [.worldState (.ofFull (WorldStateSnapshot.intoValue world.snapshot))]

/-- `record_context_updates_and_set_reference_context_item`; the full context is injected without a
reference context item. -/
def recordContextUpdates (s : WorldStateSession) (injectFull : Bool) (world : WorldState) : WorldStateSession :=
  let s := { s with turn := some world }
  if injectFull then s.setFull world
  else
    let (history, rolloutItem) := s.history.updateWorldState world
    { s with history }.persist (rolloutItem.map RolloutItem.worldState).toList

/-- `record_step_world_state_if_changed`, which `run_turn` gives its `world_state`. -/
def recordStepWorldStateIfChanged (s : WorldStateSession) (world : WorldState) : WorldStateSession :=
  match s.turn with
  | some previous =>
    let rolloutItem := (WorldStateSnapshot.mergePatchFrom world.snapshot previous.snapshot).map WorldStateItem.ofPatch
    { s with turn := some world, history := { s.history with worldStateBaseline := some world.snapshot } }.persist
      (rolloutItem.map RolloutItem.worldState).toList
  | none => s

def replaceCompactedHistory (s : WorldStateSession) (compacted : CompactedItem) (items : List ResponseItem)
    (worldStateBaseline : Option WorldState) : WorldStateSession :=
  let s := { s with history := s.history.replace items }.persist
    [.compacted { compacted with replacementHistory := some items }]
  match worldStateBaseline with
  | some world => s.setFull world
  | none => s

/-- `apply_rollout_reconstruction` -/
def applyRolloutReconstruction (E : Externals) (rollout : List RolloutItem) : WorldStateSession :=
  let reconstruction := reconstructHistoryFromRollout E rollout
  { history := { ({} : ContextManager).replace reconstruction.history with
      worldStateBaseline := reconstruction.worldStateBaseline }
    rollout }

/-- A compaction in a turn keeps the turn's state; one before a turn, or asked for, is given a new one or none. -/
inductive Step where
  | record (item : RolloutItem) (other : item.worldStateRecord = none) (kept : item.skipsTurns = false)
  | contextUpdates (injectFull : Bool) (world : WorldState)
  | sample (world : WorldState)
  | compactMidTurn (compacted : CompactedItem) (items : List ResponseItem)
  | compact (compacted : CompactedItem) (items : List ResponseItem) (world : Option WorldState)
  | resume (persisted : Nat)

def step (E : Externals) (s : WorldStateSession) : Step → WorldStateSession
  | .record item _ _ => s.persist [item]
  | .contextUpdates injectFull world => s.recordContextUpdates injectFull world
  | .sample world => s.recordStepWorldStateIfChanged world
  | .compactMidTurn compacted items => s.replaceCompactedHistory compacted items s.turn
  | .compact compacted items world => { s with turn := none }.replaceCompactedHistory compacted items world
  | .resume persisted => applyRolloutReconstruction E (s.rollout.take persisted)

end WorldStateSession

/-! ## Stopping early -/

/-- The baseline that the records replayed from the first one give. -/
def replayedBaseline (items : List RolloutItem) : Option WorldStateSnapshot :=
  (items.filterMap RolloutItem.worldStateRecord).foldl replayWorldState none

variable {E : Externals}

/-- What the scan has collected of the records seen. -/
structure Collects (s : ReplayState) (seen : List RolloutItem) : Prop where
  pending : s.pendingRollbackTurns = 0
  replay : s.worldStateReplay ++ s.getSegment.worldStateReplay =
    (seen.filterMap RolloutItem.worldStateRecord).reverse
  base : s.baseReplacementHistory.isSome = true → none ∈ s.worldStateReplay
  segmentBase : s.getSegment.baseReplacementHistory.isSome = true → none ∈ s.getSegment.worldStateReplay

theorem Collects.finalizeTaken {s seen} (h : Collects s seen) : Collects s.finalizeTaken seen := by
  have hsegment := s.finalizeTaken_getSegment
  rw [ReplayState.finalizeTaken_eq h.pending] at hsegment ⊢
  refine ⟨h.pending, ?_, fun hbase => ?_, fun hbase => ?_⟩
  · rw [hsegment]
    exact (List.append_nil _).trans h.replay
  · rw [List.mem_append]
    rw [Option.isSome_or, Bool.or_eq_true] at hbase
    exact hbase.imp h.base h.segmentBase
  · rw [hsegment] at hbase
    cases hbase

theorem ActiveReplaySegment.record_worldState (segment : ActiveReplaySegment) (item : RolloutItem) :
    (segment.record E item).worldStateReplay = segment.worldStateReplay ++ item.worldStateRecord.toList := by
  cases item with
  | compacted | worldState => rfl
  | eventMsg e => cases e <;> exact (List.append_nil _).symm
  | turnContext ctx =>
    rw [record]
    split <;> exact (List.append_nil _).symm
  | _ => exact (List.append_nil _).symm

theorem Collects.observe {s seen item} (h : Collects s seen) (hitem : item.skipsTurns = false) :
    Collects (s.observe E item seen) (item :: seen) := by
  have hseen : ((item :: seen).filterMap RolloutItem.worldStateRecord).reverse =
      (seen.filterMap RolloutItem.worldStateRecord).reverse ++ item.worldStateRecord.toList := by
    rw [List.filterMap_cons]
    cases item.worldStateRecord with
    | none => exact (List.append_nil _).symm
    | some record => exact List.reverse_cons
  cases hbracket : item.isBracket with
  | false =>
    obtain ⟨hsegment, hframe⟩ := ReplayState.observe_segment (E := E) s hbracket seen
    have hreplay := congrArg ReplayState.worldStateReplay hframe
    have hbase := congrArg ReplayState.baseReplacementHistory hframe
    refine ⟨(congrArg ReplayState.pendingRollbackTurns hframe).trans h.pending, ?_, fun hsome => ?_, fun hsome => ?_⟩
    · rw [hsegment, ActiveReplaySegment.record_worldState, ← List.append_assoc, hseen, ← h.replay]
      exact congrArg (· ++ _ ++ _) hreplay
    · have hmem := h.base ((congrArg Option.isSome hbase).symm.trans hsome)
      exact (congrArg (none ∈ ·) hreplay).mpr hmem
    · rw [hsegment] at hsome ⊢
      rw [ActiveReplaySegment.record_worldState, List.mem_append]
      cases hreplacement : item.isReplacement with
      | false => exact .inl (h.segmentBase (by rwa [ReplayState.record_base hreplacement] at hsome))
      | true =>
        cases item with
        | compacted => exact .inr List.mem_cons_self
        | _ => cases hreplacement
  | true =>
    have hnone : item.worldStateRecord = none := by cases item <;> first | rfl | cases hbracket
    have hkept : Collects s (item :: seen) := by
      refine ⟨h.pending, h.replay.trans ?_, h.base, h.segmentBase⟩
      rw [hseen, hnone]
      exact (List.append_nil _).symm
    cases item with
    | eventMsg e =>
      cases e with
      | turnStarted event =>
        rw [ReplayState.observe]
        split
        · exact hkept.finalizeTaken
        · exact hkept
      | threadRolledBack numTurns =>
        -- A marker that skips no turns.
        have hzero : numTurns.toNat = 0 := by simpa [RolloutItem.skipsTurns] using hitem
        refine ⟨?_, hkept.replay, hkept.base, hkept.segmentBase⟩
        rw [ReplayState.observe, hzero, h.pending]
        rfl
      | _ => cases hbracket
    | _ => cases hbracket

/-- The scan has collected all, or as much as ends with a compaction. -/
theorem Collects.scan {s seen} (h : Collects s seen) {older : List RolloutItem}
    (hkept : ∀ item ∈ older, item.skipsTurns = false) :
    ∃ unseen scanned, older = scanned ++ unseen ∧ Collects (s.scan E seen older) (scanned.reverse ++ seen) ∧
      (unseen = [] ∨ (s.scan E seen older).baseReplacementHistory.isSome = true) := by
  induction older generalizing s seen with
  | nil => exact ⟨[], [], rfl, h, .inl rfl⟩
  | cons item older ih =>
    obtain ⟨hitem, holder⟩ := List.forall_mem_cons.1 hkept
    have hobserve := h.observe (E := E) hitem
    rw [ReplayState.scan_cons]
    split
    next hresolved =>
      refine ⟨older, [item], rfl, hobserve, .inr ?_⟩
      simp only [ReplayState.isResolved, Bool.and_eq_true] at hresolved
      exact hresolved.1.1
    next =>
      obtain ⟨unseen, scanned, rfl, hcollects, hend⟩ := ih hobserve holder
      refine ⟨unseen, item :: scanned, rfl, ?_, hend⟩
      rwa [List.reverse_cons, List.append_assoc]

/-- A compaction resets what is replayed before it. -/
theorem foldl_replay_of_mem {records : List (Option WorldStateItem)} (h : none ∈ records)
    (baseline : Option WorldStateSnapshot) :
    records.foldl replayWorldState baseline = records.foldl replayWorldState none := by
  obtain ⟨before, after, rfl⟩ := List.append_of_mem h
  simp only [List.foldl_append, List.foldl_cons]
  rfl

theorem worldStateBaseline_eq {items : List RolloutItem} (h : ∀ item ∈ items, item.skipsTurns = false) :
    (reconstructHistoryFromRollout E items).worldStateBaseline = replayedBaseline items := by
  have hstart : Collects { rolloutSuffix := items } [] := ⟨rfl, rfl, fun h => (nomatch h), fun h => (nomatch h)⟩
  obtain ⟨unseen, scanned, hitems, hcollects, hend⟩ :=
    @Collects.scan E _ _ hstart items.reverse fun item hmem => h item (List.mem_reverse.1 hmem)
  have hreplay := hcollects.finalizeTaken.replay
  rw [ReplayState.finalizeTaken_getSegment, List.append_nil, List.append_nil] at hreplay
  show (scanRollout E items).worldStateReplay.reverse.foldl replayWorldState none = _
  rw [scanRollout, hreplay, List.reverse_reverse, replayedBaseline]
  have hsplit : items = unseen.reverse ++ scanned.reverse := by
    rw [← List.reverse_append, ← hitems, List.reverse_reverse]
  conv_rhs => rw [hsplit, List.filterMap_append, List.foldl_append]
  rcases hend with rfl | hbase
  · rfl
  · have hmem := hcollects.finalizeTaken.base ?_
    · rw [hreplay, List.mem_reverse] at hmem
      exact (foldl_replay_of_mem hmem _).symm
    · rw [ReplayState.finalizeTaken_eq hcollects.pending]
      exact (congrArg Option.isSome (Option.or_eq_left_of_isSome hbase)).trans hbase

/-! ## Runs -/

theorem replayedBaseline_append (items : List RolloutItem) (item : RolloutItem) :
    replayedBaseline (items ++ [item]) = item.worldStateRecord.toList.foldl replayWorldState (replayedBaseline items) := by
  rw [replayedBaseline, List.filterMap_append, List.foldl_append, List.filterMap_cons]
  cases item.worldStateRecord <;> rfl

/-- The baseline is that of the rollout, and every prefix of the rollout has that of a world state or none. -/
structure Restored (baseline : Option WorldStateSnapshot) (rollout : List RolloutItem) : Prop where
  baseline : replayedBaseline rollout = baseline
  snapshots : ∀ n, ∀ snapshot ∈ replayedBaseline (rollout.take n), ∃ world : WorldState, world.snapshot = snapshot
  kept : ∀ item ∈ rollout, item.skipsTurns = false

namespace Restored

variable {baseline : Option WorldStateSnapshot} {rollout : List RolloutItem} {world : WorldState}

theorem snapshot (h : Restored baseline rollout) : ∀ snapshot ∈ baseline, ∃ world : WorldState, world.snapshot = snapshot := by
  have hall := h.snapshots rollout.length
  rwa [List.take_length, h.baseline] at hall

theorem append (h : Restored baseline rollout) {item} (hitem : item.skipsTurns = false) {baseline'}
    (hbaseline : item.worldStateRecord.toList.foldl replayWorldState baseline = baseline')
    (hsnapshot : ∀ snapshot ∈ baseline', ∃ world : WorldState, world.snapshot = snapshot) :
    Restored baseline' (rollout ++ [item]) := by
  have hnew : replayedBaseline (rollout ++ [item]) = baseline' := by rw [replayedBaseline_append, h.baseline, hbaseline]
  refine ⟨hnew, fun n => ?_, fun other hmem => ?_⟩
  · rcases Nat.lt_or_ge rollout.length n with hn | hn
    · rw [List.take_of_length_le (by simpa using Nat.succ_le_of_lt hn), hnew]
      exact hsnapshot
    · rw [List.take_append_of_le_length hn]
      exact h.snapshots n
  · rcases List.mem_append.1 hmem with hmem | hmem
    · exact h.kept other hmem
    · rw [List.mem_singleton.1 hmem]
      exact hitem

theorem full (h : Restored baseline rollout) (world : WorldState) : Restored (some world.snapshot)
    (rollout ++ [.worldState (.ofFull (WorldStateSnapshot.intoValue world.snapshot))]) :=
  h.append rfl rfl fun _ hsnapshot => ⟨world, Option.some.inj hsnapshot⟩

theorem compacted (h : Restored baseline rollout) (compacted : CompactedItem) :
    Restored none (rollout ++ [.compacted compacted]) :=
  h.append rfl rfl nofun

theorem patch {previous : WorldState} (h : Restored (some previous.snapshot) rollout) (world : WorldState) :
    Restored (some world.snapshot) (rollout ++ (((WorldStateSnapshot.mergePatchFrom world.snapshot previous.snapshot).map
      WorldStateItem.ofPatch).map RolloutItem.worldState).toList) := by
  cases hpatch : WorldStateSnapshot.mergePatchFrom world.snapshot previous.snapshot with
  | none =>
    rw [mergePatchFrom_eq_none_iff.1 hpatch]
    exact (List.append_nil rollout).symm ▸ h
  | some patch =>
    exact h.append rfl (applyMergePatch_of_mergePatchFrom hpatch) fun _ hsnapshot => ⟨world, Option.some.inj hsnapshot⟩

theorem take (h : Restored baseline rollout) (n : Nat) :
    Restored (reconstructHistoryFromRollout E (rollout.take n)).worldStateBaseline (rollout.take n) := by
  have hkept : ∀ item ∈ rollout.take n, item.skipsTurns = false := fun item hmem => h.kept item (List.mem_of_mem_take hmem)
  refine ⟨(worldStateBaseline_eq hkept).symm, fun m => ?_, hkept⟩
  rw [List.take_take]
  exact h.snapshots _

end Restored

namespace WorldStateSession

/-- What every step keeps: the rollout restores the baseline, which is the state of the turn. -/
def Sound (s : WorldStateSession) : Prop :=
  Restored s.history.worldStateBaseline s.rollout ∧
    ∀ world, s.turn = some world → s.history.worldStateBaseline = some world.snapshot

theorem sound_start : ({} : WorldStateSession).Sound :=
  ⟨⟨rfl, fun n => by simp [replayedBaseline], fun _ hmem => absurd hmem List.not_mem_nil⟩, fun _ hworld => nomatch hworld⟩

theorem sound_replaceCompactedHistory {s : WorldStateSession} {compacted items world}
    (h : Restored s.history.worldStateBaseline s.rollout) (hturn : ∀ world', s.turn = some world' → world = some world') :
    (s.replaceCompactedHistory compacted items world).Sound := by
  have hcompacted := h.compacted { compacted with replacementHistory := some items }
  cases world with
  | none => exact ⟨hcompacted, fun world' hworld => nomatch hturn world' hworld⟩
  | some world => exact ⟨hcompacted.full world, fun world' hworld => by rw [← Option.some.inj (hturn world' hworld)]; rfl⟩

theorem sound_step {s : WorldStateSession} (h : s.Sound) (step : Step) : (s.step E step).Sound := by
  obtain ⟨hrestored, hturn⟩ := h
  cases step with
  | record item other kept =>
    refine ⟨hrestored.append kept ?_ hrestored.snapshot, hturn⟩
    rw [other]
    rfl
  | contextUpdates injectFull world =>
    rw [WorldStateSession.step, recordContextUpdates]
    cases injectFull with
    | true => exact ⟨hrestored.full world, fun _ hworld => by rw [← Option.some.inj hworld]; rfl⟩
    | false =>
      refine ⟨?_, fun _ hworld => by rw [← Option.some.inj hworld]; rfl⟩
      simp only [ContextManager.updateWorldState]
      cases hbaseline : s.history.worldStateBaseline with
      | none => exact hrestored.full world
      | some previous =>
        rw [hbaseline] at hrestored
        obtain ⟨last, rfl⟩ := hrestored.snapshot previous rfl
        exact hrestored.patch world
  | sample world =>
    rw [WorldStateSession.step, recordStepWorldStateIfChanged]
    split
    next previous hs =>
      rw [hturn previous hs] at hrestored
      exact ⟨hrestored.patch world, fun _ hworld => by rw [← Option.some.inj hworld]; rfl⟩
    next => exact ⟨hrestored, hturn⟩
  | compactMidTurn compacted items => exact sound_replaceCompactedHistory hrestored fun _ hworld => hworld
  | compact compacted items world => exact sound_replaceCompactedHistory (s := { s with turn := none }) hrestored nofun
  | resume persisted => exact ⟨hrestored.take persisted, nofun⟩

/-- **A resumed session diffs against what the live one did.** In every run of a session, through compactions and
through resumes from any first part of its rollout, the rollout restores the baseline in memory, which in a turn is
the snapshot of the state that the turn last rendered. -/
theorem run_restored (E : Externals) (steps : List Step) :
    let s := steps.foldl (step E) {}
    (reconstructHistoryFromRollout E s.rollout).worldStateBaseline = s.history.worldStateBaseline ∧
      ∀ world, s.turn = some world → s.history.worldStateBaseline = some world.snapshot := by
  have hrun : (steps.foldl (step E) {}).Sound := by
    induction steps using List.reverseRecOn with
    | nil => exact sound_start
    | append_singleton steps step ih =>
      rw [List.foldl_append]
      exact sound_step ih step
  intro s
  exact ⟨(worldStateBaseline_eq hrun.1.kept).trans hrun.1.baseline, hrun.2⟩

end WorldStateSession

end Codex
