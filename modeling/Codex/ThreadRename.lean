/-
Renaming a legacy thread, and what may write its title afterwards. The live sync
observes the history of a thread that is resumed
(`ThreadMetadataSync::observe_resume_history`) and holds back what it finds until
something is appended; `reconcile_rollout` (`rollout/src/state_db.rs`) extracts the
rollout's metadata and writes it over the stored row, except for an explicit title
(`ThreadMetadata::prefer_existing_explicit_title`).

A thread is its rollout, its row and, while it is open, its sync. Writing to the
database may fail as in `Outcome`; extraction fails as the rollout says.
-/
import Codex.LiveThread
import Codex.RolloutExtraction

namespace Codex.Metadata

open Text

section
variable {K : Kinds}

/-! ## Titles of messages -/

def userMessageOf : RolloutItem K → Option UserMessageEvent
  | .eventMsg (.userMessage user) => some user
  | .eventMsg (.itemCompleted (.userMessage content)) => some (asLegacyUserMessageEvent content)
  | _ => none

/-- The title that a message gives a thread. -/
def titleOf (item : RolloutItem K) : Option Text :=
  (userMessageOf item).bind fun user => nonEmpty (stripUserMessagePrefix user.message)

def previewOf (item : RolloutItem K) : Option Text := (userMessageOf item).bind userMessagePreview

namespace ThreadMetadataSync

/-- What an item does to the title: the first message to give one is observed, and sets the flag. No item names the
thread. -/
structure ObservesTitle (title : Option Text) (before after : ThreadMetadataSync K × ThreadMetadataPatch K) : Prop where
  seen : after.1.titleSeen = (before.1.titleSeen || title.isSome)
  title : after.2.title = if before.1.titleSeen then before.2.title else title.or before.2.title
  name : after.2.name = before.2.name

theorem observesTitle_none {before after : ThreadMetadataSync K × ThreadMetadataPatch K}
    (hseen : after.1.titleSeen = before.1.titleSeen) (htitle : after.2.title = before.2.title)
    (hname : after.2.name = before.2.name) :
    ObservesTitle none before after := by
  refine ⟨by simp [hseen], ?_, hname⟩
  rw [htitle, Option.none_or, ite_self]

theorem observesTitle_observeUserMessage (sync : ThreadMetadataSync K) (update : ThreadMetadataPatch K)
    (user : UserMessageEvent) :
    ObservesTitle (nonEmpty (stripUserMessagePrefix user.message)) (sync, update) (sync.observeUserMessage update user) := by
  unfold observeUserMessage
  cases userMessagePreview user <;> cases hfirst : sync.firstUserMessageSeen <;> cases hpreview : sync.previewSeen <;>
    cases htitle : sync.titleSeen <;> by_cases hempty : stripUserMessagePrefix user.message = []
  all_goals
    simp only [hfirst, hpreview, htitle, hempty, Bool.false_eq_true, if_true, if_false]
    constructor <;> simp [nonEmpty, hempty, htitle]

theorem observesTitle_observeItem (codecs : Codecs K) (observed : ThreadMetadataSync K × ThreadMetadataPatch K)
    (item : RolloutItem K) : ObservesTitle (titleOf item) observed (observeItem codecs observed item) := by
  obtain ⟨sync, update⟩ := observed
  cases item with
  | sessionMeta line =>
    simp only [observeItem]
    split
    · exact observesTitle_none rfl rfl rfl
    · exact observesTitle_none rfl rfl rfl
  | turnContext turnCtx => exact observesTitle_none rfl rfl rfl
  | eventMsg event =>
    cases event with
    | userMessage user => exact observesTitle_observeUserMessage sync update user
    | itemCompleted item => cases item with
      | userMessage content => exact observesTitle_observeUserMessage sync update (asLegacyUserMessageEvent content)
      | other => exact observesTitle_none rfl rfl rfl
    | threadGoalUpdated objective =>
      simp only [observeItem]
      split
      · exact observesTitle_none rfl rfl rfl
      · split <;> exact observesTitle_none rfl rfl rfl
    | tokenCount info => cases info <;> exact observesTitle_none rfl rfl rfl
    | threadSettingsApplied settings => exact observesTitle_none rfl rfl rfl
    | turnStarted | other => exact observesTitle_none rfl rfl rfl
  | responseItem | interAgentCommunication | interAgentCommunicationMetadata | compacted | worldState =>
    exact observesTitle_none rfl rfl rfl

theorem observesTitle_foldl (codecs : Codecs K) (observed : ThreadMetadataSync K × ThreadMetadataPatch K)
    (items : List (RolloutItem K)) :
    ObservesTitle (items.findSome? titleOf) observed (items.foldl (observeItem codecs) observed) := by
  induction items generalizing observed with
  | nil => exact observesTitle_none rfl rfl rfl
  | cons item items ih =>
    have hitem := observesTitle_observeItem codecs observed item
    have hrest := ih (observeItem codecs observed item)
    rw [List.foldl_cons, List.findSome?_cons]
    refine ⟨hrest.seen.trans ?_, hrest.title.trans ?_, hrest.name.trans hitem.name⟩
    · rw [hitem.seen]
      cases titleOf item <;> simp
    · rw [hitem.seen, hitem.title]
      cases titleOf item <;> cases observed.1.titleSeen <;> simp

end ThreadMetadataSync

/-! ## Resuming -/

namespace ThreadMetadataSync

/-- `historyMode` is the canonical mode of the items, which leave it out. -/
def observeResumeHistory (codecs : Codecs K) (sync : ThreadMetadataSync K) (historyMode : ThreadHistoryMode)
    (items : List (RolloutItem K)) : ThreadMetadataSync K × Option (ThreadMetadataPatch K) :=
  if items.isEmpty then (sync, none)
  else
    let (sync, update) := items.foldl (observeItem codecs) (sync, {})
    (sync, some (if historyMode = .paginated then { update with gitInfo := none, memoryMode := none } else update))

def recordResumeHistory (codecs : Codecs K) (sync : ThreadMetadataSync K) (historyMode : ThreadHistoryMode)
    (history : List (RolloutItem K)) : ThreadMetadataSync K :=
  let (sync, update) := sync.observeResumeHistory codecs historyMode history
  let sync := match update with
    | some update => sync.mergePendingUpdate update
    | none => sync
  { sync with deferResumeUpdateUntilAppend := sync.pendingUpdate.isSome }

end ThreadMetadataSync

/-! ## Open threads -/

/-- The sync of an open thread: what is pending never names it. -/
structure LiveSync (K : Kinds) where
  sync : ThreadMetadataSync K
  unnamed : ∀ patch ∈ sync.pendingUpdate, patch.name = none

theorem findSome?_titleOf_of_not_affects {items : List (RolloutItem K)}
    (h : ∀ item ∈ items, rolloutItemAffectsThreadMetadata item = false) : items.findSome? titleOf = none := by
  refine List.findSome?_eq_none_iff.2 fun item hitem => ?_
  have hnot := h item hitem
  cases item with
  | sessionMeta line | turnContext turnCtx => cases hnot
  | eventMsg event =>
    cases event with
    | itemCompleted item => cases item with
      | userMessage content => cases hnot
      | other => rfl
    | turnStarted | other => rfl
    | tokenCount | userMessage | threadGoalUpdated | threadSettingsApplied => cases hnot
  | responseItem | interAgentCommunication | interAgentCommunicationMetadata | compacted | worldState => rfl

theorem observedPatch_title (codecs : Codecs K) (sync : ThreadMetadataSync K) (clock : Clock) (items : List (RolloutItem K)) :
    (observedPatch codecs sync clock items).title = (if sync.titleSeen then none else items.findSome? titleOf) ∧
      (observedPatch codecs sync clock items).name = none := by
  have hfold := ThreadMetadataSync.observesTitle_foldl codecs (undeferred sync, { updatedAt := some clock.utc }) items
  have hrecency : ∀ update : ThreadMetadataPatch K,
      (if items.any ThreadMetadataSync.advancesRecency then { update with advanceRecencyAt := some clock.utc }
        else update).title = update.title ∧
      (if items.any ThreadMetadataSync.advancesRecency then { update with advanceRecencyAt := some clock.utc }
        else update).name = update.name := by
    intro update
    split <;> exact ⟨rfl, rfl⟩
  unfold observedPatch ThreadMetadataSync.observedUpdate
  by_cases haffects : items.any rolloutItemAffectsThreadMetadata
  · rw [if_pos haffects]
    refine ⟨(hrecency _).1.trans ?_, (hrecency _).2.trans hfold.name⟩
    exact hfold.title.trans (by rw [Option.or_none]; rfl)
  · rw [if_neg haffects]
    refine ⟨(hrecency _).1.trans ?_, (hrecency _).2⟩
    rw [findSome?_titleOf_of_not_affects (by simpa using haffects), ite_self]

theorem unnamed_merge {sync : ThreadMetadataSync K} {update : ThreadMetadataPatch K}
    (h : ∀ patch ∈ sync.pendingUpdate, patch.name = none) (hupdate : update.name = none) :
    (sync.pendingUpdate.getD 1 * update).name = none := by
  change update.name.or (sync.pendingUpdate.getD 1).name = none
  rw [hupdate, Option.none_or]
  cases hpending : sync.pendingUpdate with
  | none => rfl
  | some pending => exact h pending hpending

namespace LiveSync

/-- `for_resume`, with the history there is. -/
def resume (codecs : Codecs K) (threadId : Text) (cwd : Option Text) (historyMode : ThreadHistoryMode)
    (history : List (RolloutItem K)) : LiveSync K where
  sync := (ThreadMetadataSync.forResume threadId cwd).recordResumeHistory codecs historyMode history
  unnamed := by
    have hfold := ThreadMetadataSync.observesTitle_foldl codecs (ThreadMetadataSync.forResume threadId cwd, {}) history
    have hkeeps := KeepsPending.observeItems codecs (ThreadMetadataSync.forResume threadId cwd, {}) history
    unfold ThreadMetadataSync.recordResumeHistory ThreadMetadataSync.observeResumeHistory
    by_cases hempty : history.isEmpty
    · rw [if_pos hempty]
      exact fun patch hpatch => absurd hpatch (Option.not_mem_none patch)
    · rw [if_neg hempty]
      intro patch hpatch
      rw [Option.mem_def, show _ = some _ from mergePendingUpdate_pendingUpdate _ _] at hpatch
      obtain rfl := Option.some.inj hpatch
      refine unnamed_merge ?_ ?_
      · rw [hkeeps.pendingUpdate]
        exact fun patch hpatch => absurd hpatch (Option.not_mem_none patch)
      · split <;> exact hfold.name

def observeAppendedItems (codecs : Codecs K) (live : LiveSync K) (clock : Clock) (items : List (RolloutItem K)) :
    LiveSync K × Option (PendingThreadMetadataPatch K) :=
  ({ sync := (live.sync.observeAppendedItems codecs clock items).1
     unnamed := by
      intro patch hpatch
      rw [(observeAppendedItems_fst codecs live.sync clock items).1] at hpatch
      obtain rfl := Option.some.inj hpatch
      exact unnamed_merge live.unnamed (observedPatch_title codecs live.sync clock items).2 },
    (live.sync.observeAppendedItems codecs clock items).2)

def markPendingUpdateApplied (live : LiveSync K) (clock : Clock) (update : PendingThreadMetadataPatch K) : LiveSync K where
  sync := live.sync.markPendingUpdateApplied clock update
  unnamed := by
    intro patch hpatch
    rw [ThreadMetadataSync.markPendingUpdateApplied] at hpatch
    dsimp only at hpatch
    split at hpatch
    · cases hpatch
    · exact live.unnamed patch hpatch

end LiveSync

/-! ## Reconciling -/

def preferExistingExplicitTitle (metadata existing : ThreadMetadata K) : ThreadMetadata K :=
  if trim existing.title = [] ∨ existing.firstUserMessage.map trim = some (trim existing.title) then metadata
  else if trim metadata.title = [] ∨ metadata.firstUserMessage.map trim = some (trim metadata.title) then
    { metadata with title := existing.title }
  else metadata

/-- `reconcile_rollout` of a thread that has a row, given neither a builder nor items. A rollout that is another
thread's is reconciled with the row of that one. -/
def reconcileRollout (codecs : Extraction K) (rollout : Rollout K) (stored : StoredThread K) : StoredThread K :=
  match extractMetadataFromRollout codecs rollout with
  | .error _ => stored
  | .ok outcome =>
    if outcome.metadata.id ≠ stored.metadata.id then stored
    else
      let metadata := { outcome.metadata with cwd := normalizeCwd codecs.toCodecs outcome.metadata.cwd }
      let metadata := preferExistingGitInfo metadata stored.metadata
      let metadata := preferExistingExplicitTitle metadata stored.metadata
      { metadata := upsertThread stored.metadata metadata
        memoryMode := if metadata.historyMode = .legacy then outcome.memoryMode.getD "enabled".toList else stored.memoryMode }

/-! ## Threads -/

structure LegacyThread (K : Kinds) where
  rollout : Rollout K
  stored : StoredThread K
  live : Option (LiveSync K)
  legacy : rollout.historyMode = .legacy

inductive ThreadAction (K : Kinds) where
  /-- The history is read from the rollout if the caller has none. -/
  | resume (cwd : Option Text) (history : Option (List (RolloutItem K)))
  | append (clock : Clock) (rawItems : List (RolloutItem K)) (outcome : Outcome)
  | flush (clock : Clock) (outcome : Outcome)
  | reconcile

/-- The patch has reached the database. -/
def Outcome.wrote : Outcome → Bool
  | .applied => true
  | .failed wrote => wrote
  | .logged => false

/-- `apply_metadata_update`, with the memory mode. -/
def updateStored (codecs : Codecs K) (liveRolloutPath : Option Text) (patch : ThreadMetadataPatch K) (stored : StoredThread K) :
    StoredThread K where
  metadata := applyMetadataUpdate codecs liveRolloutPath patch stored.metadata
  memoryMode := (patch.memoryMode.map memoryModeAsStr).getD stored.memoryMode

namespace LegacyThread

section
variable (codecs : Extraction K) (persistedRolloutItems : List (RolloutItem K) → List (RolloutItem K))

/-- `update_thread_metadata` with what is pending, and its acknowledgement. -/
def attempt (s : LegacyThread K) (live : LiveSync K) (clock : Clock) (update : PendingThreadMetadataPatch K) (outcome : Outcome) :
    LegacyThread K :=
  { s with
    stored := if outcome.wrote then updateStored codecs.toCodecs (some s.rollout.path) update.patch s.stored else s.stored
    live := some (match outcome with
      | .failed _ => live
      | .applied | .logged => live.markPendingUpdateApplied clock update) }

def reconcile (s : LegacyThread K) : LegacyThread K := { s with stored := reconcileRollout codecs s.rollout s.stored }

def step (s : LegacyThread K) : ThreadAction K → LegacyThread K
  | .resume cwd history =>
    { s with
      live := some (.resume codecs.toCodecs s.stored.metadata.id cwd s.rollout.historyMode (history.getD s.rollout.items)) }
  | .append clock rawItems outcome =>
    let items := LiveThread.persistAppendedItems persistedRolloutItems rawItems
    match s.live with
    | none => s
    | some live =>
      if items.isEmpty then s
      else
        let s := { s with rollout := { s.rollout with items := s.rollout.items ++ items } }
        match live.observeAppendedItems codecs.toCodecs clock items with
        | (live, none) => { s with live := some live }
        | (live, some update) => s.attempt codecs live clock update outcome
  | .flush clock outcome =>
    match s.live with
    | none => s
    | some live => match live.sync.takePendingUpdateForExistingHistory with
      | none => s
      | some update => s.attempt codecs live clock update outcome
  | .reconcile => s.reconcile codecs

/-- The row as a rename writes it, after what an open thread has pending. -/
def named (s : LegacyThread K) (clock : Clock) (name : Text) : LegacyThread K :=
  let s := match s.live with
    | none => s
    | some live => match live.sync.takePendingUpdate with
      | none => s
      | some update => s.attempt codecs live clock update .applied
  { s with
    stored := updateStored codecs.toCodecs (s.live.map fun _ => s.rollout.path) { name := some (some name) }
      { s.stored with metadata := { s.stored.metadata with historyMode := s.rollout.historyMode } } }

/-- A rename that succeeds; it ends by reconciling the thread. -/
def rename (s : LegacyThread K) (clock : Clock) (name : Text) : LegacyThread K := (s.named codecs clock name).reconcile codecs

end

end LegacyThread

end

end Codex.Metadata
