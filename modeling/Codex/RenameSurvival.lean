/-
How long a rename stands. The title of a legacy thread is what every writer of it
writes: an append or a flush writes the title that is pending or observed, and
the sync of a thread that has been resumed observes the first one anew;
reconciling writes the rollout's first title, unless it takes the row's for an
explicit one and the rollout's for one that it derived.
-/
import Codex.Lib.Runs
import Codex.MetadataRestated
import Codex.ThreadRename

namespace Codex.Metadata

open Text LastWrites

variable {K : Kinds}

/-! ## The rollout's title -/

section
variable (codecs : Extraction K)

variable (metadata : ThreadMetadata K)

theorem applyUserMessage_firsts (user : UserMessageEvent) :
    nonEmpty (applyUserMessage metadata user).title =
        (nonEmpty metadata.title).or (nonEmpty (stripUserMessagePrefix user.message)) ∧
      (applyUserMessage metadata user).firstUserMessage = metadata.firstUserMessage.or (userMessagePreview user) := by
  unfold applyUserMessage
  by_cases htitle : metadata.title = [] <;> by_cases hempty : stripUserMessagePrefix user.message = [] <;>
    simp [setPreviewIfEmpty, nonEmpty, htitle, hempty]

theorem rebuildItem_firsts (item : RolloutItem K) :
    nonEmpty (rebuildItem codecs.toCodecs metadata item).title = (nonEmpty metadata.title).or (titleOf item) ∧
      (rebuildItem codecs.toCodecs metadata item).firstUserMessage = metadata.firstUserMessage.or (previewOf item) := by
  have hsame : ∀ rebuilt : ThreadMetadata K, rebuilt.title = metadata.title →
      rebuilt.firstUserMessage = metadata.firstUserMessage →
      nonEmpty rebuilt.title = (nonEmpty metadata.title).or none ∧
        rebuilt.firstUserMessage = metadata.firstUserMessage.or none := by
    intro rebuilt htitle hfirst
    rw [htitle, hfirst, Option.or_none, Option.or_none]
    exact ⟨rfl, rfl⟩
  cases item with
  | sessionMeta line =>
    by_cases hid : metadata.id ≠ line.id
    · rw [show rebuildItem codecs.toCodecs metadata (.sessionMeta line) = _ from if_pos hid]
      exact hsame _ rfl rfl
    · rw [show rebuildItem codecs.toCodecs metadata (.sessionMeta line) = _ from if_neg hid]
      exact hsame _ rfl rfl
  | turnContext turnCtx => exact hsame _ rfl rfl
  | eventMsg event =>
    cases event with
    | userMessage user => exact applyUserMessage_firsts metadata user
    | itemCompleted item => cases item with
      | userMessage content => exact applyUserMessage_firsts metadata (asLegacyUserMessageEvent content)
      | other => exact hsame _ rfl rfl
    | threadGoalUpdated objective =>
      by_cases hne : trim objective ≠ []
      · rw [show rebuildItem codecs.toCodecs metadata (.eventMsg (.threadGoalUpdated objective)) = _ from if_pos hne]
        exact hsame _ rfl rfl
      · rw [show rebuildItem codecs.toCodecs metadata (.eventMsg (.threadGoalUpdated objective)) = _ from if_neg hne]
        exact hsame _ rfl rfl
    | tokenCount info => cases info <;> exact hsame _ rfl rfl
    | threadSettingsApplied settings => exact hsame _ rfl rfl
    | turnStarted | other => exact hsame _ rfl rfl
  | responseItem | interAgentCommunication | interAgentCommunicationMetadata | compacted | worldState => exact hsame _ rfl rfl

/-- The first title and the first preview of the messages stay. -/
theorem applyRolloutItem_firsts (item : RolloutItem K) :
    nonEmpty (applyRolloutItem codecs.toCodecs codecs.defaultProvider metadata item).title =
        (nonEmpty metadata.title).or (titleOf item) ∧
      (applyRolloutItem codecs.toCodecs codecs.defaultProvider metadata item).firstUserMessage =
        metadata.firstUserMessage.or (previewOf item) := by
  rw [applyRolloutItem_normal]
  exact rebuildItem_firsts codecs metadata item

theorem foldl_firsts {metadata : ThreadMetadata K} (htitle : metadata.title = []) (hfirst : metadata.firstUserMessage = none)
    (items : List (RolloutItem K)) :
    (items.foldl (applyRolloutItem codecs.toCodecs codecs.defaultProvider) metadata).title =
        (items.findSome? titleOf).getD [] ∧
      (items.foldl (applyRolloutItem codecs.toCodecs codecs.defaultProvider) metadata).firstUserMessage =
        items.findSome? previewOf := by
  have hread := @read_foldl_first _ _ _ titleOf (applyRolloutItem codecs.toCodecs codecs.defaultProvider)
    (fun s => nonEmpty s.title) (fun s item => (applyRolloutItem_firsts codecs s item).1) metadata items
  have hreadFirst := @read_foldl_first _ _ _ previewOf (applyRolloutItem codecs.toCodecs codecs.defaultProvider)
    ThreadMetadata.firstUserMessage (fun s item => (applyRolloutItem_firsts codecs s item).2) metadata items
  rw [hfirst, Option.none_or] at hreadFirst
  refine ⟨?_, hreadFirst⟩
  rw [htitle, show nonEmpty ([] : Text) = none from rfl, Option.none_or] at hread
  rw [← hread, nonEmpty]
  split
  next hempty => exact hempty
  next => rfl

theorem trim_trim_ne_nil {text : Text} (h : trim text ≠ []) : trim (trim text) ≠ [] :=
  trim_ne_nil (List.getLast_mem h) (Bool.eq_false_of_not_eq_true (List.rdropWhile_last_not isWhitespace (trimStart text) h))

/-- A title is trimmed, so that it does not vanish when it is trimmed again. -/
theorem trim_ne_nil_of_titleOf {item : RolloutItem K} {title : Text} (h : titleOf item = some title) : trim title ≠ [] := by
  obtain ⟨user, -, htitle⟩ := Option.bind_eq_some_iff.1 h
  have hne := nonEmpty_ne_nil htitle
  rw [nonEmpty] at htitle
  split at htitle
  next => cases htitle
  next =>
    obtain rfl := Option.some.inj htitle
    unfold stripUserMessagePrefix at hne ⊢
    split at hne
    next => exact trim_trim_ne_nil hne
    next => exact trim_trim_ne_nil hne

/-! ## What writes another title -/

/-- The row's title is neither blank nor its first user message. -/
def IsExplicit (metadata : ThreadMetadata K) : Prop :=
  trim metadata.title ≠ [] ∧ metadata.firstUserMessage.map trim ≠ some (trim metadata.title)

/-- Reconciling finds the same title in the rollout, or takes the row's for explicit and that of the rollout, if it
has one, for its first message. -/
def ReconcileKeeps (rollout : Rollout K) (metadata : ThreadMetadata K) : Prop :=
  rollout.items ≠ [] → ∀ builder ∈ builderFromItems codecs rollout, builder.id = metadata.id →
    (rollout.items.findSome? titleOf).getD [] = metadata.title ∨
      IsExplicit metadata ∧
        ∀ title ∈ rollout.items.findSome? titleOf, (rollout.items.findSome? previewOf).map trim = some (trim title)

theorem preferExistingExplicitTitle_title_iff {metadata existing : ThreadMetadata K} {title : Option Text}
    (htitle : metadata.title = title.getD []) (hne : ∀ text ∈ title, trim text ≠ []) :
    (preferExistingExplicitTitle metadata existing).title = existing.title ↔
      title.getD [] = existing.title ∨
        IsExplicit existing ∧ ∀ text ∈ title, metadata.firstUserMessage.map trim = some (trim text) := by
  have hderived : (trim metadata.title = [] ∨ metadata.firstUserMessage.map trim = some (trim metadata.title)) ↔
      ∀ text ∈ title, metadata.firstUserMessage.map trim = some (trim text) := by
    rw [htitle]
    cases title with
    | none => exact iff_of_true (.inl rfl) fun text htext => absurd htext (Option.not_mem_none text)
    | some text =>
      rw [Option.getD_some, or_iff_right (hne text rfl)]
      simp
  unfold preferExistingExplicitTitle
  split
  next himplicit =>
    have hnot : ¬ IsExplicit existing := fun h => himplicit.elim h.1 h.2
    rw [htitle, or_iff_left fun h => hnot h.1]
  next hexplicit =>
    split
    next hkeep => exact iff_of_true rfl (.inr ⟨not_or.1 hexplicit, hderived.1 hkeep⟩)
    next hkeep => rw [htitle, or_iff_left fun h => hkeep (hderived.2 h.2)]

theorem preferExistingGitInfo_firsts (existing : ThreadMetadata K) :
    (preferExistingGitInfo metadata existing).title = metadata.title ∧
      (preferExistingGitInfo metadata existing).firstUserMessage = metadata.firstUserMessage := by
  unfold preferExistingGitInfo
  split <;> exact ⟨rfl, rfl⟩

theorem reconcileRollout_title_iff (rollout : Rollout K) (stored : StoredThread K) :
    (reconcileRollout codecs rollout stored).metadata.title = stored.metadata.title ↔
      ReconcileKeeps codecs rollout stored.metadata := by
  unfold reconcileRollout extractMetadataFromRollout ReconcileKeeps
  by_cases hempty : rollout.items = []
  · simp [hempty]
  · rw [if_neg (by simpa using hempty)]
    cases hbuilder : builderFromItems codecs rollout with
    | none => simp
    | some builder =>
      obtain ⟨htitle, hfirst⟩ := @foldl_firsts K codecs (builder.build codecs) rfl rfl rollout.items
      have hid : (rollout.items.foldl (applyRolloutItem codecs.toCodecs codecs.defaultProvider) (builder.build codecs)).id =
          builder.id := foldl_id (builder.build codecs) rollout.items
      dsimp only
      generalize rollout.items.foldl (applyRolloutItem codecs.toCodecs codecs.defaultProvider) (builder.build codecs) = derived
        at htitle hfirst hid ⊢
      by_cases hother : derived.id ≠ stored.metadata.id
      · rw [if_pos hother]
        refine iff_of_true rfl fun _ other hbuilt hsame => absurd hsame ?_
        rw [← Option.some.inj hbuilt, ← hid]
        exact hother
      · rw [if_neg hother]
        have hgit := preferExistingGitInfo_firsts { derived with cwd := normalizeCwd codecs.toCodecs derived.cwd } stored.metadata
        have hne : ∀ text ∈ rollout.items.findSome? titleOf, trim text ≠ [] := by
          intro text htext
          obtain ⟨item, -, hitem⟩ := List.exists_of_findSome?_eq_some htext
          exact trim_ne_nil_of_titleOf hitem
        refine (preferExistingExplicitTitle_title_iff (hgit.1.trans htitle) hne).trans ?_
        rw [hgit.2, show _ = _ from hfirst]
        exact ⟨fun h _ other _ _ => h, fun h => h hempty builder rfl (hid.symm.trans (not_not.1 hother))⟩

def observedPending (live : LiveSync K) (clock : Clock) (items : List (RolloutItem K)) : ThreadMetadataPatch K :=
  live.sync.pendingUpdate.getD 1 * observedPatch codecs.toCodecs live.sync clock items

/-- The title that an append has to write: the first one observed, if none has been before, or the one pending. -/
def appendedTitle (live : LiveSync K) (items : List (RolloutItem K)) : Option Text :=
  (if live.sync.titleSeen then none else items.findSome? titleOf).or (live.sync.pendingUpdate.bind (·.title))

theorem observedPending_title (live : LiveSync K) (clock : Clock) (items : List (RolloutItem K)) :
    (observedPending codecs live clock items).title = appendedTitle live items := by
  change (observedPatch codecs.toCodecs live.sync clock items).title.or (live.sync.pendingUpdate.getD 1).title = _
  rw [(observedPatch_title codecs.toCodecs live.sync clock items).1, appendedTitle]
  cases live.sync.pendingUpdate <;> rfl

theorem title_eq_none_of_not_hasMetadataFacts {update : ThreadMetadataPatch K} (h : update.hasMetadataFacts = false) :
    update.title = none := by
  cases htitle : update.title with
  | none => rfl
  | some title => simp [ThreadMetadataPatch.hasMetadataFacts, htitle] at h

theorem observeAppendedItems_update (live : LiveSync K) (clock : Clock) (items : List (RolloutItem K)) :
    ((live.observeAppendedItems codecs.toCodecs clock items).2 = none ∧ (observedPending codecs live clock items).title = none) ∨
      ∃ update, (live.observeAppendedItems codecs.toCodecs clock items).2 = some update ∧
        update.patch = observedPending codecs live clock items := by
  have hpending := (observeAppendedItems_fst codecs.toCodecs live.sync clock items).1
  change (live.sync.observeAppendedItems codecs.toCodecs clock items).2 = none ∧ _ ∨
    ∃ update, (live.sync.observeAppendedItems codecs.toCodecs clock items).2 = some update ∧ _
  unfold ThreadMetadataSync.observeAppendedItems at hpending ⊢
  dsimp only at hpending ⊢
  split
  next hwaits =>
    refine .inl ⟨rfl, ?_⟩
    rw [ThreadMetadataSync.touchWaits, hpending] at hwaits
    simp only [Option.any_some, Bool.and_eq_true, Bool.not_eq_true'] at hwaits
    exact title_eq_none_of_not_hasMetadataFacts hwaits.1.2
  next =>
    exact .inr ⟨_, congrArg (Option.map _) hpending, rfl⟩

/-! ## Steps -/

variable (persistedRolloutItems : List (RolloutItem K) → List (RolloutItem K))

/-- A step that has no other title to write than the one there is. -/
def KeepsTitle (s : LegacyThread K) : ThreadAction K → Prop
  | .resume _ _ => True
  | .append _ rawItems outcome =>
    let items := LiveThread.persistAppendedItems persistedRolloutItems rawItems
    outcome.wrote = true → items ≠ [] → ∀ live ∈ s.live, ∀ title ∈ appendedTitle live items, title = s.stored.metadata.title
  | .flush _ outcome =>
    outcome.wrote = true → ∀ live ∈ s.live, live.sync.deferCreateUpdateUntilHistoryExists = false →
      live.sync.deferResumeUpdateUntilAppend = false → ∀ patch ∈ live.sync.pendingUpdate, ∀ title ∈ patch.title,
        title = s.stored.metadata.title
  | .reconcile => ReconcileKeeps codecs s.rollout s.stored.metadata

theorem updateStored_title (path : Option Text) {patch} (hname : patch.name = none)
    (stored : StoredThread K) :
    (updateStored codecs.toCodecs path patch stored).metadata.title = patch.title.getD stored.metadata.title := by
  unfold updateStored applyMetadataUpdate
  rw [hname]
  rfl

variable (s : LegacyThread K)

theorem attempt_title_iff (live : LiveSync K) (clock : Clock) {update}
    (hname : update.patch.name = none) (outcome : Outcome) :
    (s.attempt codecs live clock update outcome).stored.metadata.title = s.stored.metadata.title ↔
      (outcome.wrote = true → ∀ title ∈ update.patch.title, title = s.stored.metadata.title) := by
  unfold LegacyThread.attempt
  cases outcome.wrote with
  | false => exact iff_of_true rfl (fun h => absurd h Bool.false_ne_true)
  | true =>
    rw [if_pos rfl, updateStored_title codecs _ hname, getD_eq_self_iff]
    exact ⟨fun h _ => h, fun h => h rfl⟩

/-- **The title stays exactly when nothing else is there to write.** -/
theorem step_title_iff (action : ThreadAction K) :
    (s.step codecs persistedRolloutItems action).stored.metadata.title = s.stored.metadata.title ↔
      KeepsTitle codecs persistedRolloutItems s action := by
  cases action with
  | resume cwd history => exact iff_of_true rfl trivial
  | append clock rawItems outcome =>
    unfold LegacyThread.step KeepsTitle
    dsimp only
    generalize LiveThread.persistAppendedItems persistedRolloutItems rawItems = items
    split
    next hlive => exact iff_of_true rfl fun _ _ live hmem => absurd (hlive.symm.trans hmem) (by simp)
    next live hlive =>
      have hcondition : (outcome.wrote = true → items ≠ [] → ∀ live ∈ s.live, ∀ title ∈ appendedTitle live items,
            title = s.stored.metadata.title) ↔
          (outcome.wrote = true → items ≠ [] → ∀ title ∈ (observedPending codecs live clock items).title,
            title = s.stored.metadata.title) := by
        rw [observedPending_title, hlive]
        simp
      rw [hcondition]
      by_cases hempty : items = []
      · rw [if_pos (by simp [hempty])]
        exact iff_of_true rfl fun _ hne => absurd hempty hne
      · rw [if_neg (by simpa using hempty)]
        rcases observeAppendedItems_update codecs live clock items with ⟨hnone, htitle⟩ | ⟨update, hsome, hpatch⟩
        · rw [htitle]
          split
          next => exact iff_of_true rfl fun _ _ title h => absurd h (Option.not_mem_none title)
          next heq => exact absurd ((congrArg Prod.snd heq).symm.trans hnone) (by simp)
        · have hname : update.patch.name = none := by
            rw [hpatch]
            exact unnamed_merge live.unnamed (observedPatch_title codecs.toCodecs live.sync clock items).2
          split
          next heq => exact absurd ((congrArg Prod.snd heq).symm.trans hsome) (by simp)
          next live' update' heq =>
            obtain rfl := Option.some.inj ((congrArg Prod.snd heq).symm.trans hsome)
            refine (attempt_title_iff codecs _ live' clock hname outcome).trans ?_
            rw [hpatch]
            exact ⟨fun h hwrote _ => h hwrote, fun h hwrote => h hwrote hempty⟩
  | flush clock outcome =>
    unfold LegacyThread.step KeepsTitle
    dsimp only
    split
    next hlive => exact iff_of_true rfl fun _ live hmem => absurd (hlive.symm.trans hmem) (by simp)
    next live hlive =>
      rw [hlive]
      unfold ThreadMetadataSync.takePendingUpdateForExistingHistory ThreadMetadataSync.takePendingUpdate
      cases hcreate : live.sync.deferCreateUpdateUntilHistoryExists with
      | true => exact iff_of_true rfl (by simp [hcreate])
      | false =>
        cases hresume : live.sync.deferResumeUpdateUntilAppend with
        | true => exact iff_of_true rfl (by simp [hresume])
        | false =>
          cases hpending : live.sync.pendingUpdate with
          | none => exact iff_of_true rfl (by simp [hpending])
          | some patch =>
            have hname := live.unnamed patch hpending
            refine (attempt_title_iff codecs s live clock hname outcome).trans ?_
            simp [hcreate, hresume, hpending]
  | reconcile => exact reconcileRollout_title_iff codecs s.rollout s.stored

/-! ## Runs -/

theorem named_title (clock : Clock) (name : Text) :
    (s.named codecs clock name).stored.metadata.title = name := by
  unfold LegacyThread.named
  extract_lets flushed
  have hlegacy : flushed.rollout.historyMode = .legacy := flushed.legacy
  rw [hlegacy]
  rfl

/-- **When a rename stands**: exactly when the reconciliation that ends it, and each step of the run, has no other
title to write. -/
theorem rename_stands_iff (s : LegacyThread K) (clock : Clock) (name : Text) (actions : List (ThreadAction K)) :
    Runs.Always (LegacyThread.step codecs persistedRolloutItems) (fun s => s.stored.metadata.title = name)
        (s.rename codecs clock name) actions ↔
      ReconcileKeeps codecs (s.named codecs clock name).rollout (s.named codecs clock name).stored.metadata ∧
        Runs.Along (LegacyThread.step codecs persistedRolloutItems) (KeepsTitle codecs persistedRolloutItems)
          (s.rename codecs clock name) actions := by
  have hnamed := named_title codecs s clock name
  have hstep : ∀ (s : LegacyThread K) action, s.stored.metadata.title = name →
      ((s.step codecs persistedRolloutItems action).stored.metadata.title = name ↔
        KeepsTitle codecs persistedRolloutItems s action) := by
    rintro s action rfl
    exact step_title_iff codecs persistedRolloutItems s action
  -- the run that begins before the reconciliation
  have hrun := Runs.always_iff_along hstep hnamed (.reconcile :: actions)
  rw [Runs.always_cons, and_iff_right hnamed] at hrun
  exact hrun

end

/-! ## A rename that is forgotten -/

/-- A thread that has been given its title by its first message. -/
def greetedThread : LegacyThread plainKinds where
  rollout := { movedRollout with items := [.sessionMeta movedMeta, plainMessage] }
  stored :=
    { metadata := { plainRow "p".toList with title := "hello".toList, firstUserMessage := some "hello".toList }
      memoryMode := "enabled".toList }
  live := none
  legacy := rfl

/-- The first append after a resume gives the thread its first title again. -/
theorem not_rename_stands_resumed :
    (greetedThread.rename plainExtraction plainClock "math".toList).stored.metadata.title = "math".toList ∧
      ¬ Runs.Always (LegacyThread.step plainExtraction id) (fun s => s.stored.metadata.title = "math".toList)
        (greetedThread.rename plainExtraction plainClock "math".toList)
        [.resume none none, .append plainClock [.eventMsg (.tokenCount none)] .applied] := by
  refine ⟨by decide, fun h => ?_⟩
  have hend : (Runs.run (LegacyThread.step plainExtraction id) (greetedThread.rename plainExtraction plainClock "math".toList)
      [.resume none none, .append plainClock [.eventMsg (.tokenCount none)] .applied]).stored.metadata.title =
        "hello".toList := by
    decide
  exact absurd ((h _ (List.prefix_refl _)).symm.trans hend) (by decide)

end Codex.Metadata
