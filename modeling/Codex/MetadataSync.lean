/-
A thread's live metadata against the metadata its items rebuild.

The row and the pending patch together stand for one set of facts: those the row would
hold if the patch were applied (`shown`). Observing an item changes these as
`apply_rollout_item` changes the rebuilt row (`Follows.observeItem`); merging, failing and
retrying move facts between patch and row and change none of them. The flags of the sync
say which facts the rebuilt row has.
-/
import Codex.ThreadMetadata

namespace Codex.Metadata

open Text

/-! ## Patches form a monoid -/

namespace GitInfoPatch

variable (p : GitInfoPatch)

theorem empty_merge : merge {} p = p := by simp [merge]

theorem merge_assoc (q r : GitInfoPatch) : (p.merge q).merge r = p.merge (q.merge r) := by
  simp [merge, Option.or_assoc]

theorem merge_self : p.merge p = p := by simp [merge]

end GitInfoPatch

namespace ThreadMetadataPatch

variable {K : Kinds}

variable (p : ThreadMetadataPatch K)

theorem merge_assoc (q r : ThreadMetadataPatch K) : (p.merge q).merge r = p.merge (q.merge r) := by
  have hgit : ((p.merge q).merge r).gitInfo = (p.merge (q.merge r)).gitInfo := by
    cases hp : p.gitInfo <;> cases hq : q.gitInfo <;> cases hr : r.gitInfo <;>
      simp [merge, hp, hq, hr, GitInfoPatch.merge_assoc, GitInfoPatch.empty_merge]
  simp only [merge, Option.or_assoc] at hgit ⊢
  rw [hgit]

theorem merge_self : p.merge p = p := by
  have hgit : (p.merge p).gitInfo = p.gitInfo := by
    cases hp : p.gitInfo <;> simp [merge, hp, GitInfoPatch.merge_self]
  simp only [merge, Option.or_self] at hgit ⊢
  rw [hgit]

theorem empty_merge : merge {} p = p := by
  have hgit : (merge {} p).gitInfo = p.gitInfo := by
    cases hp : p.gitInfo <;> simp [merge, hp, GitInfoPatch.empty_merge]
  simp only [merge, Option.or_none] at hgit ⊢
  rw [hgit]

theorem merge_empty : p.merge {} = p := by simp [merge]

/-- A patch times the next one is the patch that has the effect of both. -/
instance : Monoid (ThreadMetadataPatch K) where
  mul := merge
  one := {}
  mul_assoc := merge_assoc
  one_mul := empty_merge
  mul_one := merge_empty

theorem mul_self : p * p = p := merge_self p

end ThreadMetadataPatch

/-! ## Facts -/

/-- The part of a row that items determine. -/
@[ext]
structure Facts (K : Kinds) where
  preview : Option Text
  firstUserMessage : Option Text
  title : Text
  model : Option Text
  modelProvider : Text
  reasoningEffort : Option K.Effort
  cwd : Text
  approvalMode : Text
  sandboxPolicy : Text
  tokensUsed : Int
  source : Text
  threadSource : Option K.ThreadSource
  agentNickname : Option Text
  agentRole : Option Text
  agentPath : Option Text
  cliVersion : Text

def ThreadMetadata.facts {K : Kinds} (metadata : ThreadMetadata K) : Facts K where
  preview := metadata.preview
  firstUserMessage := metadata.firstUserMessage
  title := metadata.title
  model := metadata.model
  modelProvider := metadata.modelProvider
  reasoningEffort := metadata.reasoningEffort
  cwd := metadata.cwd
  approvalMode := metadata.approvalMode
  sandboxPolicy := metadata.sandboxPolicy
  tokensUsed := metadata.tokensUsed
  source := metadata.source
  threadSource := metadata.threadSource
  agentNickname := metadata.agentNickname
  agentRole := metadata.agentRole
  agentPath := metadata.agentPath
  cliVersion := metadata.cliVersion

section
variable {K : Kinds} (codecs : Codecs K)

/-- Facts with the working directory as `apply_metadata_update` writes it. -/
def Facts.normalized (facts : Facts K) : Facts K :=
  { facts with cwd := if facts.cwd = [] then [] else normalizeCwd codecs facts.cwd }

/-- What `assign` does to the facts. -/
def ThreadMetadataPatch.assignFacts (patch : ThreadMetadataPatch K) (facts : Facts K) : Facts K where
  preview := patch.preview.or facts.preview
  firstUserMessage := patch.firstUserMessage.or facts.firstUserMessage
  title := patch.title.getD facts.title
  model := patch.model.or facts.model
  modelProvider := patch.modelProvider.getD facts.modelProvider
  reasoningEffort := patch.reasoningEffort.getD facts.reasoningEffort
  cwd := (patch.cwd.map (normalizeCwd codecs)).getD facts.cwd
  approvalMode := (patch.approvalMode.map codecs.approval).getD facts.approvalMode
  sandboxPolicy := (patch.permissionProfile.map codecs.profile).getD facts.sandboxPolicy
  tokensUsed := (patch.tokenUsage.map fun usage => max usage.totalTokens 0).getD facts.tokensUsed
  source := (patch.source.map codecs.source).getD facts.source
  threadSource := patch.threadSource.getD facts.threadSource
  agentNickname := patch.agentNickname.getD facts.agentNickname
  agentRole := patch.agentRole.getD facts.agentRole
  agentPath := patch.agentPath.getD facts.agentPath
  cliVersion := patch.cliVersion.getD facts.cliVersion

end

section
variable {K : Kinds} {codecs : Codecs K}

theorem getD_map_or {α β : Type} (next self : Option α) (f : α → β) (b : β) :
    ((next.or self).map f).getD b = (next.map f).getD ((self.map f).getD b) := by
  cases next <;> rfl

theorem getD_or {α : Type} (next self : Option α) (a : α) : (next.or self).getD a = next.getD (self.getD a) := by
  cases next <;> rfl

theorem assignFacts_mul (p q : ThreadMetadataPatch K) (facts : Facts K) :
    (p * q).assignFacts codecs facts = q.assignFacts codecs (p.assignFacts codecs facts) := by
  change (p.merge q).assignFacts codecs facts = _
  simp only [ThreadMetadataPatch.assignFacts, ThreadMetadataPatch.merge, Option.or_assoc, getD_map_or, getD_or]

theorem assignFacts_self (p : ThreadMetadataPatch K) (facts : Facts K) :
    p.assignFacts codecs (p.assignFacts codecs facts) = p.assignFacts codecs facts := by
  rw [← assignFacts_mul, ThreadMetadataPatch.mul_self]

/-! ## One item -/

def RolloutItem.NamesProvider : RolloutItem K → Prop
  | .sessionMeta line => line.modelProvider ≠ some []
  | .eventMsg (.threadSettingsApplied settings) => settings.modelProviderId ≠ []
  | _ => True

/-- What the items observed so far have made of the rebuilt row, and the flags that say so. -/
structure Tracks (sync : ThreadMetadataSync K) (rebuilt : ThreadMetadata K) : Prop where
  id : rebuilt.id = sync.threadId
  cwd : sync.cwdSeen = true ↔ rebuilt.cwd ≠ []
  preview : sync.previewSeen = true ↔ rebuilt.preview ≠ none
  firstUserMessage : sync.firstUserMessageSeen = true ↔ rebuilt.firstUserMessage ≠ none
  title : sync.titleSeen = true ↔ rebuilt.title ≠ []
  modelProvider : rebuilt.modelProvider ≠ []
  previewText : rebuilt.preview ≠ some []
  firstUserMessageText : rebuilt.firstUserMessage ≠ some []
  previewed : rebuilt.firstUserMessage ≠ none → rebuilt.preview ≠ none

/-- The update a batch has built so far brings the facts shown up to the rebuilt row's. -/
structure Follows (codecs : Codecs K) (shown : Facts K) (sync : ThreadMetadataSync K) (update : ThreadMetadataPatch K)
    (rebuilt : ThreadMetadata K) : Prop where
  facts : update.assignFacts codecs shown = rebuilt.facts.normalized codecs
  tracks : Tracks sync rebuilt
  name : update.name = none

theorem userMessagePreview_ne_nil (user : UserMessageEvent) : userMessagePreview user ≠ some [] := by
  simp only [userMessagePreview]
  split
  · next h => simpa using h
  · split
    · decide
    · split
      · decide
      · simp

theorem userMessagePreview_of_title {user} (h : stripUserMessagePrefix user.message ≠ []) :
    userMessagePreview user = some (stripUserMessagePrefix user.message) := if_pos h

/-- `apply_rollout_item` before its default provider. -/
def rebuildItem (codecs : Codecs K) (metadata : ThreadMetadata K) : RolloutItem K → ThreadMetadata K
  | .sessionMeta line => applySessionMetaFromItem codecs metadata line
  | .turnContext turnCtx => applyTurnContext codecs metadata turnCtx
  | .eventMsg event => applyEventMsg codecs metadata event
  | _ => metadata

variable {item : RolloutItem K}

theorem applyRolloutItem_eq {defaultProvider : Text} {metadata}
    (h : (rebuildItem codecs metadata item).modelProvider ≠ []) :
    applyRolloutItem codecs defaultProvider metadata item = rebuildItem codecs metadata item := by
  cases item <;> exact if_neg h

namespace Follows

variable {shown : Facts K} {sync : ThreadMetadataSync K} {update : ThreadMetadataPatch K} {rebuilt : ThreadMetadata K}

/-- The first user message and the preview, each kept from the first message that has one. -/
theorem observePreview (h : Follows codecs shown sync update rebuilt) {preview : Text} (hne : preview ≠ []) :
    let observed := if sync.firstUserMessageSeen then (sync, update)
      else ({ sync with firstUserMessageSeen := true }, { update with firstUserMessage := some preview })
    let observed := if observed.1.previewSeen then observed
      else ({ observed.1 with previewSeen := true }, { observed.2 with preview := some preview })
    Follows codecs shown observed.1 observed.2
      { rebuilt with
        firstUserMessage := rebuilt.firstUserMessage.or (some preview)
        preview := rebuilt.preview.or (some preview) } := by
  -- the first user message, with the preview still as it was
  have hfirst : let observed := if sync.firstUserMessageSeen then (sync, update)
        else ({ sync with firstUserMessageSeen := true }, { update with firstUserMessage := some preview })
      observed.2.assignFacts codecs shown =
          ({ rebuilt with firstUserMessage := rebuilt.firstUserMessage.or (some preview) } : ThreadMetadata K).facts.normalized codecs ∧
        observed.1 = { sync with firstUserMessageSeen := true } ∧ observed.2.name = none := by
    by_cases hseen : sync.firstUserMessageSeen = true
    · obtain ⟨first, hsome⟩ := Option.ne_none_iff_exists'.1 (h.tracks.firstUserMessage.1 hseen)
      simp only [hseen, if_true, hsome, Option.some_or]
      refine ⟨?_, ?_, h.name⟩
      · rw [h.facts, ← hsome]
      · rw [← hseen]
    · have hnone : rebuilt.firstUserMessage = none := by
        by_contra hsome
        exact hseen (h.tracks.firstUserMessage.2 hsome)
      simp only [hseen, hnone, Option.none_or]
      exact ⟨congrArg (fun f : Facts K => { f with firstUserMessage := some preview }) h.facts, rfl, h.name⟩
  intro observed₁ observed₂
  obtain ⟨hfacts, hsync, hname⟩ := hfirst
  have hpreviewSeen : observed₁.1.previewSeen = sync.previewSeen := by rw [hsync]
  have htracks (b : Bool) (hb : b = true) : Tracks { observed₁.1 with previewSeen := b }
      { rebuilt with
        firstUserMessage := rebuilt.firstUserMessage.or (some preview)
        preview := rebuilt.preview.or (some preview) } := by
    rw [hsync]
    refine ⟨h.tracks.id, h.tracks.cwd, ?_, ?_, h.tracks.title, h.tracks.modelProvider, ?_, ?_, ?_⟩
    · simp [hb]
    · simp
    · have := h.tracks.previewText
      cases hp : rebuilt.preview with
      | none => simpa using hne
      | some p => simpa [hp] using this
    · have := h.tracks.firstUserMessageText
      cases hp : rebuilt.firstUserMessage with
      | none => simpa using hne
      | some p => simpa [hp] using this
    · simp
  by_cases hseen : sync.previewSeen = true
  · obtain ⟨shownPreview, hsome⟩ := Option.ne_none_iff_exists'.1 (h.tracks.preview.1 hseen)
    have hobserved : observed₂ = observed₁ := if_pos (hpreviewSeen.trans hseen)
    have hsame : observed₁.1 = { observed₁.1 with previewSeen := sync.previewSeen } := by rw [← hpreviewSeen]
    rw [hobserved]
    refine ⟨?_, ?_, hname⟩
    · rw [hfacts, hsome, Option.some_or, ← hsome]
    · rw [hsame]
      exact htracks _ hseen
  · have hnone : rebuilt.preview = none := by
      by_contra hsome
      exact hseen (h.tracks.preview.2 hsome)
    have hobserved : observed₂ = ({ observed₁.1 with previewSeen := true }, { observed₁.2 with preview := some preview }) :=
      if_neg (by rw [hpreviewSeen]; exact hseen)
    rw [hobserved]
    refine ⟨?_, htracks true rfl, hname⟩
    rw [hnone, Option.none_or]
    exact congrArg (fun f : Facts K => { f with preview := some preview }) hfacts

theorem observeTitle (h : Follows codecs shown sync update rebuilt) {title : Text} (hne : title ≠ []) :
    let observed := if sync.titleSeen then (sync, update)
      else ({ sync with titleSeen := true }, { update with title := some title })
    Follows codecs shown observed.1 observed.2 (if rebuilt.title = [] then { rebuilt with title } else rebuilt) := by
  by_cases hseen : sync.titleSeen = true
  · simpa only [hseen, if_true, if_neg (h.tracks.title.1 hseen)] using h
  · have hempty : rebuilt.title = [] := by
      by_contra htitle
      exact hseen (h.tracks.title.2 htitle)
    simp only [hseen, if_pos hempty]
    refine ⟨congrArg (fun f : Facts K => { f with title }) h.facts, ?_, h.name⟩
    exact { h.tracks with title := by simp [hne] }

theorem observeUserMessage (h : Follows codecs shown sync update rebuilt) (user : UserMessageEvent) :
    Follows codecs shown (sync.observeUserMessage update user).1 (sync.observeUserMessage update user).2
      (applyUserMessage rebuilt user) := by
  unfold ThreadMetadataSync.observeUserMessage applyUserMessage setPreviewIfEmpty
  cases hpreview : userMessagePreview user with
  | none =>
    have htitle : stripUserMessagePrefix user.message = [] := by
      by_contra hne
      rw [userMessagePreview_of_title hne] at hpreview
      cases hpreview
    simpa [htitle] using h
  | some preview =>
    have hne : preview ≠ [] := by
      rintro rfl
      exact userMessagePreview_ne_nil user hpreview
    have hmid := h.observePreview hne
    by_cases htitle : stripUserMessagePrefix user.message = []
    · simpa [htitle] using hmid
    · simpa [htitle] using hmid.observeTitle htitle

end Follows

theorem normalized_of_ne {facts : Facts K} (h : facts.cwd ≠ []) :
    facts.normalized codecs = { facts with cwd := normalizeCwd codecs facts.cwd } := by
  simp [Facts.normalized, h]

namespace Follows

variable {shown : Facts K} {sync : ThreadMetadataSync K} {update : ThreadMetadataPatch K} {rebuilt : ThreadMetadata K}

theorem observeTurnContext (h : Follows codecs shown sync update rebuilt) (turnCtx : TurnContextItem K) :
    Follows codecs shown (ThreadMetadataSync.observeItem codecs (sync, update) (.turnContext turnCtx)).1
      (ThreadMetadataSync.observeItem codecs (sync, update) (.turnContext turnCtx)).2
      (applyTurnContext codecs rebuilt turnCtx) := by
  have hcwd : sync.cwdSeen = true ↔ rebuilt.cwd ≠ [] := h.tracks.cwd
  refine ⟨?_, ?_, h.name⟩
  · by_cases hseen : sync.cwdSeen = true
    · simp only [ThreadMetadataSync.observeItem, applyTurnContext, hseen, if_true, if_neg (hcwd.1 hseen)]
      exact congrArg (fun f : Facts K =>
        { f with
          model := some turnCtx.model
          reasoningEffort := turnCtx.effort
          approvalMode := codecs.approval turnCtx.approvalPolicy
          sandboxPolicy := codecs.profile turnCtx.permissionProfile }) h.facts
    · have hempty : rebuilt.cwd = [] := by
        by_contra hne
        exact hseen (hcwd.2 hne)
      simp only [ThreadMetadataSync.observeItem, applyTurnContext, hseen, if_pos hempty]
      rw [normalized_of_ne turnCtx.cwd.nonempty]
      exact congrArg (fun f : Facts K =>
        { f with
          cwd := normalizeCwd codecs turnCtx.cwd.path
          model := some turnCtx.model
          reasoningEffort := turnCtx.effort
          approvalMode := codecs.approval turnCtx.approvalPolicy
          sandboxPolicy := codecs.profile turnCtx.permissionProfile }) h.facts
  · refine { h.tracks with cwd := ?_ }
    refine ⟨fun _ => ?_, fun _ => rfl⟩
    simp only [applyTurnContext]
    split
    · exact turnCtx.cwd.nonempty
    · next hne => exact hne

theorem observeThreadSettings (h : Follows codecs shown sync update rebuilt) {settings}
    (hprovider : settings.modelProviderId ≠ []) :
    Follows codecs shown (ThreadMetadataSync.observeItem codecs (sync, update) (.eventMsg (.threadSettingsApplied settings))).1
      (ThreadMetadataSync.observeItem codecs (sync, update) (.eventMsg (.threadSettingsApplied settings))).2
      (applyEventMsg codecs rebuilt (.threadSettingsApplied settings)) := by
  refine ⟨?_, ?_, h.name⟩
  · rw [normalized_of_ne settings.cwd.nonempty]
    exact congrArg (fun f : Facts K =>
      { f with
        cwd := normalizeCwd codecs settings.cwd.path
        model := some settings.model
        modelProvider := settings.modelProviderId
        reasoningEffort := settings.reasoningEffort
        approvalMode := codecs.approval settings.approvalPolicy
        sandboxPolicy := codecs.profile settings.permissionProfile }) h.facts
  · exact { h.tracks with
      cwd := ⟨fun _ => settings.cwd.nonempty, fun _ => rfl⟩
      modelProvider := hprovider }

theorem observeSessionMeta (h : Follows codecs shown sync update rebuilt) {line}
    (hprovider : line.modelProvider ≠ some []) :
    Follows codecs shown (ThreadMetadataSync.observeItem codecs (sync, update) (.sessionMeta line)).1
      (ThreadMetadataSync.observeItem codecs (sync, update) (.sessionMeta line)).2
      (applySessionMetaFromItem codecs rebuilt line) := by
  by_cases hid : line.id = sync.threadId
  · have hrebuilt : ¬ rebuilt.id ≠ line.id := by simp [h.tracks.id, hid]
    simp only [ThreadMetadataSync.observeItem, if_pos hid, applySessionMetaFromItem, if_neg hrebuilt]
    refine ⟨?_, ?_, h.name⟩
    · have keeps {β : Type} (field : Facts K → β) : field (update.assignFacts codecs shown) = field (rebuilt.facts.normalized codecs) :=
        congrArg field h.facts
      refine Facts.ext (keeps Facts.preview) (keeps Facts.firstUserMessage) (keeps Facts.title) (keeps Facts.model) ?_
        (keeps Facts.reasoningEffort) ?_ (keeps Facts.approvalMode) (keeps Facts.sandboxPolicy) (keeps Facts.tokensUsed)
        rfl rfl rfl rfl rfl ?_
      · have hkept : update.modelProvider.getD shown.modelProvider = rebuilt.modelProvider := keeps Facts.modelProvider
        cases hline : line.modelProvider with
        | none => exact hkept
        | some provider =>
          have hne : provider ≠ [] := fun heq => hprovider (by rw [hline, heq])
          simp [ThreadMetadataPatch.assignFacts, Facts.normalized, ThreadMetadata.facts, hne]
      · have hkept : (update.cwd.map (normalizeCwd codecs)).getD shown.cwd = (rebuilt.facts.normalized codecs).cwd :=
          keeps Facts.cwd
        by_cases hne : line.cwd = []
        · simp only [ThreadMetadataPatch.assignFacts, Facts.normalized, ThreadMetadata.facts] at hkept ⊢
          rwa [if_neg (not_not.2 hne), if_neg (not_not.2 hne)]
        · simp [ThreadMetadataPatch.assignFacts, Facts.normalized, ThreadMetadata.facts, hne]
      · have hkept : update.cliVersion.getD shown.cliVersion = rebuilt.cliVersion := keeps Facts.cliVersion
        by_cases hne : line.cliVersion = []
        · simpa [ThreadMetadataPatch.assignFacts, Facts.normalized, ThreadMetadata.facts, hne] using hkept
        · simp [ThreadMetadataPatch.assignFacts, Facts.normalized, ThreadMetadata.facts, hne]
    · refine { h.tracks with id := h.tracks.id, cwd := ?_, modelProvider := ?_ }
      · have hcwd := h.tracks.cwd
        by_cases hne : line.cwd = []
        · simpa [hne] using hcwd
        · simp [hne]
      · cases hline : line.modelProvider with
        | none => exact h.tracks.modelProvider
        | some provider =>
          intro heq
          exact hprovider (hline.trans (congrArg some heq))
  · have hrebuilt : rebuilt.id ≠ line.id := by
      rw [h.tracks.id]
      exact Ne.symm hid
    simpa only [ThreadMetadataSync.observeItem, if_neg hid, applySessionMetaFromItem, if_pos hrebuilt] using h

theorem observeGoal (h : Follows codecs shown sync update rebuilt) (objective : Text) :
    Follows codecs shown (ThreadMetadataSync.observeItem codecs (sync, update) (.eventMsg (.threadGoalUpdated objective))).1
      (ThreadMetadataSync.observeItem codecs (sync, update) (.eventMsg (.threadGoalUpdated objective))).2
      (applyEventMsg codecs rebuilt (.threadGoalUpdated objective)) := by
  simp only [ThreadMetadataSync.observeItem, applyEventMsg, setPreviewIfEmpty]
  by_cases hempty : trim objective = []
  · simpa [hempty] using h
  · rw [if_neg hempty, if_pos hempty]
    by_cases hseen : sync.previewSeen = true
    · obtain ⟨preview, hsome⟩ := Option.ne_none_iff_exists'.1 (h.tracks.preview.1 hseen)
      rw [if_pos hseen, hsome, Option.some_or, ← hsome]
      exact h
    · have hnone : rebuilt.preview = none := by
        by_contra hsome
        exact hseen (h.tracks.preview.2 hsome)
      rw [if_neg hseen, hnone, Option.none_or]
      refine ⟨congrArg (fun f : Facts K => { f with preview := some (trim objective) }) h.facts, ?_, h.name⟩
      exact { h.tracks with
        preview := by simp
        previewText := by simpa using hempty
        previewed := fun _ => nofun }

/-- **One item.** Observing it changes the facts as rebuilding the row from it does. -/
theorem observeItem (h : Follows codecs shown sync update rebuilt) (hitem : item.NamesProvider)
    (defaultProvider : Text) :
    Follows codecs shown (ThreadMetadataSync.observeItem codecs (sync, update) item).1
      (ThreadMetadataSync.observeItem codecs (sync, update) item).2 (applyRolloutItem codecs defaultProvider rebuilt item) := by
  have hbody : Follows codecs shown (ThreadMetadataSync.observeItem codecs (sync, update) item).1
      (ThreadMetadataSync.observeItem codecs (sync, update) item).2 (rebuildItem codecs rebuilt item) := by
    cases item with
    | sessionMeta line => exact h.observeSessionMeta hitem
    | turnContext turnCtx => exact h.observeTurnContext turnCtx
    | eventMsg event =>
      cases event with
      | userMessage user => exact h.observeUserMessage user
      | threadSettingsApplied settings => exact h.observeThreadSettings hitem
      | threadGoalUpdated objective => exact h.observeGoal objective
      | tokenCount info =>
        cases info with
        | none => exact h
        | some usage =>
          exact ⟨congrArg (fun f : Facts K => { f with tokensUsed := max usage.totalTokens 0 }) h.facts, { h.tracks with },
            h.name⟩
      | itemCompleted item =>
        cases item with
        | userMessage content => exact h.observeUserMessage (asLegacyUserMessageEvent content)
        | other => exact h
      | turnStarted | other => exact h
    | responseItem | interAgentCommunication | interAgentCommunicationMetadata | compacted | worldState => exact h
  rwa [applyRolloutItem_eq hbody.tracks.modelProvider]

end Follows

/-! ## A live thread, one call after another -/

/-- How `update_thread_metadata` ends. A failure may come after the row is written; one of SQLite's
own is only logged, and the call succeeds without it. -/
inductive Outcome where
  | applied
  | failed (wrote : Bool)
  | logged
  deriving DecidableEq

inductive LiveEvent (K : Kinds) where
  /-- Items are observed, and the update this gives, if any, is applied. -/
  | append (clock : Clock) (items : List (RolloutItem K)) (outcome : Outcome)
  /-- What is pending is applied. -/
  | flush (clock : Clock) (outcome : Outcome)

namespace LiveEvent

def items : LiveEvent K → List (RolloutItem K)
  | .append _ items _ => items
  | .flush _ _ => []

def outcome : LiveEvent K → Outcome
  | .append _ _ outcome => outcome
  | .flush _ outcome => outcome

end LiveEvent

structure Live (K : Kinds) where
  sync : ThreadMetadataSync K
  row : ThreadMetadata K

namespace Live

def attempt (codecs : Codecs K) (path : Option Text) (live : Live K) (clock : Clock)
    (update : PendingThreadMetadataPatch K) : Outcome → Live K
  | .applied => ⟨live.sync.markPendingUpdateApplied clock update, applyMetadataUpdate codecs path update.patch live.row⟩
  | .failed wrote => { live with row := if wrote then applyMetadataUpdate codecs path update.patch live.row else live.row }
  | .logged => { live with sync := live.sync.markPendingUpdateApplied clock update }

def step (codecs : Codecs K) (path : Option Text) (live : Live K) : LiveEvent K → Live K
  | .append clock items outcome =>
    let (sync, update) := live.sync.observeAppendedItems codecs clock items
    match update with
    | none => { live with sync }
    | some update => attempt codecs path { live with sync } clock update outcome
  | .flush clock outcome =>
    match live.sync.takePendingUpdate with
    | none => live
    | some update => attempt codecs path live clock update outcome

def run (codecs : Codecs K) (path : Option Text) (live : Live K) (events : List (LiveEvent K)) : Live K :=
  events.foldl (step codecs path) live

def shown (codecs : Codecs K) (live : Live K) : Facts K := (live.sync.pendingUpdate.getD 1).assignFacts codecs live.row.facts

end Live

/-- The live thread is level with the row rebuilt from the items it has observed. -/
structure Level (codecs : Codecs K) (live : Live K) (rebuilt : ThreadMetadata K) : Prop where
  shown : live.shown codecs = rebuilt.facts.normalized codecs
  tracks : Tracks live.sync rebuilt
  name : (live.sync.pendingUpdate.getD 1).name = none

/-- The flags alone decide what is observed of the next item. -/
theorem Tracks.of_flags {sync sync' : ThreadMetadataSync K} {rebuilt : ThreadMetadata K} (h : Tracks sync rebuilt)
    (hid : sync'.threadId = sync.threadId) (hcwd : sync'.cwdSeen = sync.cwdSeen)
    (hpreview : sync'.previewSeen = sync.previewSeen) (hfirst : sync'.firstUserMessageSeen = sync.firstUserMessageSeen)
    (htitle : sync'.titleSeen = sync.titleSeen) : Tracks sync' rebuilt :=
  { h with
    id := by rw [hid]; exact h.id
    cwd := by rw [hcwd]; exact h.cwd
    preview := by rw [hpreview]; exact h.preview
    firstUserMessage := by rw [hfirst]; exact h.firstUserMessage
    title := by rw [htitle]; exact h.title }

theorem observeItem_of_not_affects (h : rolloutItemAffectsThreadMetadata item = false)
    (observed : ThreadMetadataSync K × ThreadMetadataPatch K) : ThreadMetadataSync.observeItem codecs observed item = observed := by
  cases item with
  | sessionMeta line | turnContext turnCtx => cases h
  | eventMsg event =>
    cases event with
    | itemCompleted item => cases item with
      | userMessage content => cases h
      | other => rfl
    | turnStarted | other => rfl
    | tokenCount info | userMessage user | threadGoalUpdated objective | threadSettingsApplied settings => cases h
  | responseItem | interAgentCommunication | interAgentCommunicationMetadata | compacted | worldState => rfl

variable {items : List (RolloutItem K)}

theorem foldl_observeItem_of_not_affects
    (h : items.any rolloutItemAffectsThreadMetadata = false) (observed : ThreadMetadataSync K × ThreadMetadataPatch K) :
    items.foldl (ThreadMetadataSync.observeItem codecs) observed = observed := by
  induction items with
  | nil => rfl
  | cons item items ih =>
    simp only [List.any_cons, Bool.or_eq_false_iff] at h
    rw [List.foldl_cons, observeItem_of_not_affects h.1, ih h.2]

namespace Follows

variable {shown : Facts K} {sync : ThreadMetadataSync K} {update : ThreadMetadataPatch K} {rebuilt : ThreadMetadata K}

theorem observeItems (h : Follows codecs shown sync update rebuilt)
    (hitems : ∀ item ∈ items, item.NamesProvider) (defaultProvider : Text) :
    Follows codecs shown (items.foldl (ThreadMetadataSync.observeItem codecs) (sync, update)).1
      (items.foldl (ThreadMetadataSync.observeItem codecs) (sync, update)).2
      (items.foldl (applyRolloutItem codecs defaultProvider) rebuilt) := by
  induction items generalizing sync update rebuilt with
  | nil => exact h
  | cons item items ih =>
    simp only [List.mem_cons, forall_eq_or_imp] at hitems
    exact ih (h.observeItem hitems.1 defaultProvider) hitems.2

/-- A batch gives the update that its items give, whether or not one of them holds facts. -/
theorem observedUpdate (htracks : Tracks sync rebuilt) (hshown : shown = rebuilt.facts.normalized codecs) (clock : Clock)
    (hitems : ∀ item ∈ items, item.NamesProvider) (defaultProvider : Text) :
    Follows codecs shown (sync.observedUpdate codecs clock items).1 (sync.observedUpdate codecs clock items).2
      (items.foldl (applyRolloutItem codecs defaultProvider) rebuilt) := by
  have hstart : Follows codecs shown sync { updatedAt := some clock.utc } rebuilt := ⟨hshown, htracks, rfl⟩
  have hfold := hstart.observeItems hitems defaultProvider
  have hobserved : (if items.any rolloutItemAffectsThreadMetadata then
        items.foldl (ThreadMetadataSync.observeItem codecs) (sync, { updatedAt := some clock.utc })
      else (sync, { updatedAt := some clock.utc })) =
      items.foldl (ThreadMetadataSync.observeItem codecs) (sync, { updatedAt := some clock.utc }) := by
    split
    · rfl
    · next hnone => rw [foldl_observeItem_of_not_affects (by simpa using hnone)]
  simp only [ThreadMetadataSync.observedUpdate, hobserved]
  split
  · exact ⟨hfold.facts, hfold.tracks, hfold.name⟩
  · exact hfold

end Follows

/-- Applying the pending patch writes the facts it shows: the row keeps no other preview, and loses
none of its texts for being empty. -/
theorem facts_applyMetadataUpdate {patch row rebuilt sync} (path : Option Text) (hname : patch.name = none)
    (hfacts : patch.assignFacts codecs row.facts = rebuilt.facts.normalized codecs) (htracks : Tracks sync rebuilt) :
    (applyMetadataUpdate codecs path patch row).facts = patch.assignFacts codecs row.facts := by
  have hpreview : patch.preview.or row.preview = rebuilt.preview := congrArg Facts.preview hfacts
  have hfirst : patch.firstUserMessage.or row.firstUserMessage = rebuilt.firstUserMessage := congrArg Facts.firstUserMessage hfacts
  have hrow : applyMetadataUpdate codecs path patch row =
      { upsertThread row (assign codecs patch
          { row with rolloutPath := (patch.rolloutPath.or path).getD row.rolloutPath }) with
        isPinned := patch.isPinned.getD row.isPinned } := by
    simp only [applyMetadataUpdate, hname]
    rfl
  have hpreviewRow : (nonEmpty ((rebuilt.preview.or rebuilt.firstUserMessage).getD [])).or row.preview = rebuilt.preview := by
    cases hp : rebuilt.preview with
    | none =>
      have hnone : rebuilt.firstUserMessage = none := by
        by_contra hne
        exact htracks.previewed hne hp
      rw [hp, Option.or_eq_none_iff] at hpreview
      simp [hnone, nonEmpty, hpreview.2]
    | some preview =>
      have hne : preview ≠ [] := fun heq => htracks.previewText (by rw [hp, heq])
      simp [nonEmpty, hne]
  have hfirstRow : nonEmpty (rebuilt.firstUserMessage.getD []) = rebuilt.firstUserMessage := by
    cases hp : rebuilt.firstUserMessage with
    | none => rfl
    | some first =>
      have hne : first ≠ [] := fun heq => htracks.firstUserMessageText (by rw [hp, heq])
      simp [nonEmpty, hne]
  rw [hrow]
  refine Facts.ext ?_ ?_ rfl rfl rfl rfl rfl rfl rfl rfl rfl rfl rfl rfl rfl rfl
  · change (nonEmpty (((patch.preview.or row.preview).or (patch.firstUserMessage.or row.firstUserMessage)).getD [])).or row.preview =
      patch.preview.or row.preview
    rw [hpreview, hfirst, hpreviewRow]
  · change nonEmpty ((patch.firstUserMessage.or row.firstUserMessage).getD []) = patch.firstUserMessage.or row.firstUserMessage
    rw [hfirst, hfirstRow]

/-- Observing items sets flags and nothing else. -/
structure KeepsPending (sync sync' : ThreadMetadataSync K) : Prop where
  pendingUpdate : sync'.pendingUpdate = sync.pendingUpdate
  generation : sync'.pendingUpdateGeneration = sync.pendingUpdateGeneration
  deferCreate : sync'.deferCreateUpdateUntilHistoryExists = sync.deferCreateUpdateUntilHistoryExists
  deferResume : sync'.deferResumeUpdateUntilAppend = sync.deferResumeUpdateUntilAppend

namespace KeepsPending

variable {sync sync' sync'' : ThreadMetadataSync K}

theorem refl : KeepsPending sync sync := ⟨rfl, rfl, rfl, rfl⟩

theorem trans (h : KeepsPending sync sync') (h' : KeepsPending sync' sync'') : KeepsPending sync sync'' :=
  ⟨h'.1.trans h.1, h'.2.trans h.2, h'.3.trans h.3, h'.4.trans h.4⟩

theorem observeUserMessage (update : ThreadMetadataPatch K) (user : UserMessageEvent) :
    KeepsPending sync (sync.observeUserMessage update user).1 := by
  unfold ThreadMetadataSync.observeUserMessage
  cases userMessagePreview user <;> cases hfirst : sync.firstUserMessageSeen <;> cases hpreview : sync.previewSeen <;>
    cases htitle : sync.titleSeen <;> by_cases hempty : stripUserMessagePrefix user.message = []
  all_goals
    simp only [hfirst, hpreview, htitle, hempty, Bool.false_eq_true, if_true, if_false]
    exact ⟨rfl, rfl, rfl, rfl⟩

theorem observeItem (codecs : Codecs K) (observed : ThreadMetadataSync K × ThreadMetadataPatch K) (item : RolloutItem K) :
    KeepsPending observed.1 (ThreadMetadataSync.observeItem codecs observed item).1 := by
  obtain ⟨sync, update⟩ := observed
  cases item with
  | sessionMeta line =>
    simp only [ThreadMetadataSync.observeItem]
    split <;> exact ⟨rfl, rfl, rfl, rfl⟩
  | turnContext turnCtx => exact ⟨rfl, rfl, rfl, rfl⟩
  | eventMsg event =>
    cases event with
    | userMessage user => exact observeUserMessage update user
    | itemCompleted item => cases item with
      | userMessage content => exact observeUserMessage update (asLegacyUserMessageEvent content)
      | other => exact refl
    | threadGoalUpdated objective =>
      simp only [ThreadMetadataSync.observeItem]
      split
      · exact refl
      · split <;> exact ⟨rfl, rfl, rfl, rfl⟩
    | tokenCount info => cases info <;> exact refl
    | threadSettingsApplied settings => exact ⟨rfl, rfl, rfl, rfl⟩
    | turnStarted | other => exact refl
  | responseItem | interAgentCommunication | interAgentCommunicationMetadata | compacted | worldState => exact refl

theorem observeItems (codecs : Codecs K) (observed : ThreadMetadataSync K × ThreadMetadataPatch K) (items : List (RolloutItem K)) :
    KeepsPending observed.1 (items.foldl (ThreadMetadataSync.observeItem codecs) observed).1 := by
  induction items generalizing observed with
  | nil => exact refl
  | cons item items ih => exact (observeItem codecs observed item).trans (ih _)

theorem observedUpdate (codecs : Codecs K) (clock : Clock) (items : List (RolloutItem K)) :
    KeepsPending sync (sync.observedUpdate codecs clock items).1 := by
  simp only [ThreadMetadataSync.observedUpdate]
  split
  · exact observeItems codecs (sync, { updatedAt := some clock.utc }) items
  · exact refl

end KeepsPending

/-- The sync with its deferrals lifted, as `observe_appended_items` begins. -/
def undeferred (sync : ThreadMetadataSync K) : ThreadMetadataSync K :=
  { sync with
    deferCreateUpdateUntilHistoryExists := false
    deferResumeUpdateUntilAppend := false }

/-- The patch a call of `observe_appended_items` merges into the pending one. -/
def observedPatch (codecs : Codecs K) (sync : ThreadMetadataSync K) (clock : Clock) (items : List (RolloutItem K)) :
    ThreadMetadataPatch K := ((undeferred sync).observedUpdate codecs clock items).2

theorem mergePendingUpdate_pendingUpdate (sync : ThreadMetadataSync K) (update : ThreadMetadataPatch K) :
    (sync.mergePendingUpdate update).pendingUpdate = some (sync.pendingUpdate.getD 1 * update) := by
  unfold ThreadMetadataSync.mergePendingUpdate
  cases sync.pendingUpdate with
  | none => rw [Option.getD_none, one_mul]
  | some pending => rfl

/-- What `observe_appended_items` leaves: the patch merged, its generation counted, no deferral. -/
theorem observeAppendedItems_fst (codecs : Codecs K) (sync : ThreadMetadataSync K) (clock : Clock) (items : List (RolloutItem K)) :
    (sync.observeAppendedItems codecs clock items).1.pendingUpdate =
        some (sync.pendingUpdate.getD 1 * observedPatch codecs sync clock items) ∧
      (sync.observeAppendedItems codecs clock items).1.pendingUpdateGeneration = (sync.pendingUpdateGeneration + 1) % 2 ^ 64 ∧
      (sync.observeAppendedItems codecs clock items).1.deferCreateUpdateUntilHistoryExists = false ∧
      (sync.observeAppendedItems codecs clock items).1.deferResumeUpdateUntilAppend = false := by
  have hkeeps : KeepsPending (undeferred sync) ((undeferred sync).observedUpdate codecs clock items).1 :=
    KeepsPending.observedUpdate codecs clock items
  have hmerged := mergePendingUpdate_pendingUpdate ((undeferred sync).observedUpdate codecs clock items).1
    (observedPatch codecs sync clock items)
  rw [hkeeps.pendingUpdate] at hmerged
  exact ⟨hmerged, congrArg (fun n => (n + 1) % 2 ^ 64) hkeeps.generation, hkeeps.deferCreate, hkeeps.deferResume⟩

/-- It hands out what is then pending, or leaves that to a later call. -/
theorem observeAppendedItems_snd (codecs : Codecs K) (sync : ThreadMetadataSync K) (clock : Clock) (items : List (RolloutItem K)) :
    (sync.observeAppendedItems codecs clock items).2 = none ∨ (sync.observeAppendedItems codecs clock items).2 =
      (sync.observeAppendedItems codecs clock items).1.takePendingUpdate := by
  simp only [ThreadMetadataSync.observeAppendedItems]
  split
  · exact .inl rfl
  · exact .inr rfl

namespace Level

variable {live : Live K} {rebuilt : ThreadMetadata K}

variable {update : PendingThreadMetadataPatch K}

theorem shown_of_take (h : Level codecs live rebuilt) (htake : live.sync.takePendingUpdate = some update) :
    update.patch.assignFacts codecs live.row.facts = rebuilt.facts.normalized codecs ∧ update.patch.name = none ∧
      update.generation = live.sync.pendingUpdateGeneration ∧ live.sync.pendingUpdate = some update.patch := by
  obtain ⟨patch, hpending, rfl⟩ := Option.map_eq_some_iff.1 htake
  have hshown := h.shown
  have hname := h.name
  rw [Live.shown, hpending, Option.getD_some] at hshown
  rw [hpending, Option.getD_some] at hname
  exact ⟨hshown, hname, rfl, hpending⟩

/-- An attempt to apply what is pending leaves the facts shown as they were. -/
theorem attempt (h : Level codecs live rebuilt)
    (htake : live.sync.takePendingUpdate = some update) (path : Option Text) (clock : Clock) {outcome : Outcome}
    (hlogged : outcome ≠ .logged) : Level codecs (live.attempt codecs path clock update outcome) rebuilt := by
  obtain ⟨hshown, hname, hgeneration, hpending⟩ := h.shown_of_take htake
  have hrow := facts_applyMetadataUpdate path hname hshown h.tracks
  cases outcome with
  | applied =>
    have hnone : (live.sync.markPendingUpdateApplied clock update).pendingUpdate = none := if_pos hgeneration.symm
    refine ⟨?_, h.tracks.of_flags rfl rfl rfl rfl rfl, ?_⟩
    · simp only [Live.attempt, Live.shown, hnone, Option.getD_none]
      exact hrow.trans hshown
    · simp only [Live.attempt, hnone, Option.getD_none]
      rfl
  | failed wrote =>
    cases wrote with
    | false => exact h
    | true =>
      refine ⟨?_, h.tracks, h.name⟩
      simp only [Live.attempt, Live.shown, hpending, Option.getD_some, if_true]
      rw [hrow, assignFacts_self, hshown]
  | logged => exact absurd rfl hlogged

theorem attempt_applied (h : Level codecs live rebuilt)
    (htake : live.sync.takePendingUpdate = some update) (path : Option Text) (clock : Clock) :
    (live.attempt codecs path clock update .applied).row.facts = rebuilt.facts.normalized codecs := by
  obtain ⟨hshown, hname, -⟩ := h.shown_of_take htake
  exact (facts_applyMetadataUpdate path hname hshown h.tracks).trans hshown

theorem observe (h : Level codecs live rebuilt) (clock : Clock)
    (hitems : ∀ item ∈ items, item.NamesProvider) (defaultProvider : Text) :
    Level codecs { live with sync := (live.sync.observeAppendedItems codecs clock items).1 }
      (items.foldl (applyRolloutItem codecs defaultProvider) rebuilt) := by
  have htracks : Tracks (undeferred live.sync) rebuilt := h.tracks.of_flags rfl rfl rfl rfl rfl
  have hfollows := Follows.observedUpdate htracks h.shown clock hitems defaultProvider
  have hpending := (observeAppendedItems_fst codecs live.sync clock items).1
  refine ⟨?_, hfollows.tracks.of_flags rfl rfl rfl rfl rfl, ?_⟩
  · simp only [Live.shown, hpending, Option.getD_some, assignFacts_mul]
    exact hfollows.facts
  · rw [hpending, Option.getD_some]
    change ((undeferred live.sync).observedUpdate codecs clock items).2.name.or (live.sync.pendingUpdate.getD 1).name = none
    rw [hfollows.name, h.name, Option.or_none]

/-- **One call.** The live thread stays level with the row rebuilt from the items observed. -/
theorem step (h : Level codecs live rebuilt) (path : Option Text) {event} (hlogged : event.outcome ≠ .logged)
    (hitems : ∀ item ∈ event.items, item.NamesProvider) (defaultProvider : Text) :
    Level codecs (live.step codecs path event) (event.items.foldl (applyRolloutItem codecs defaultProvider) rebuilt) := by
  cases event with
  | append clock items outcome =>
    have hobserved := h.observe clock hitems defaultProvider
    simp only [Live.step]
    split
    · exact hobserved
    · next update hupdate =>
      refine hobserved.attempt ?_ path clock hlogged
      rcases observeAppendedItems_snd codecs live.sync clock items with hnone | htake
      · rw [hnone] at hupdate
        cases hupdate
      · exact htake.symm.trans hupdate
  | flush clock outcome =>
    simp only [Live.step]
    split
    · exact h
    · next update htake => exact h.attempt htake path clock hlogged

theorem run (h : Level codecs live rebuilt) (path : Option Text) {events}
    (hlogged : ∀ event ∈ events, event.outcome ≠ .logged)
    (hitems : ∀ event ∈ events, ∀ item ∈ event.items, item.NamesProvider) (defaultProvider : Text) :
    Level codecs (live.run codecs path events)
      ((events.flatMap LiveEvent.items).foldl (applyRolloutItem codecs defaultProvider) rebuilt) := by
  induction events generalizing live rebuilt with
  | nil => exact h
  | cons event events ih =>
    simp only [List.mem_cons, forall_eq_or_imp] at hlogged hitems
    rw [List.flatMap_cons, List.foldl_append]
    exact ih (h.step path hlogged.1 hitems.1 defaultProvider) hlogged.2 hitems.2

theorem flush (h : Level codecs live rebuilt) (path : Option Text) (clock : Clock) :
    (live.step codecs path (.flush clock .applied)).row.facts = rebuilt.facts.normalized codecs := by
  simp only [Live.step]
  split
  · next hnone =>
    have hpending : live.sync.pendingUpdate = none := Option.map_eq_none_iff.1 hnone
    have hshown := h.shown
    rw [Live.shown, hpending, Option.getD_none] at hshown
    exact hshown
  · next update htake => exact h.attempt_applied htake path clock

end Level

/-! ## Live and rebuilt -/

/-- A row that holds none of the first-wins facts, and names a provider. -/
structure Blank (row : ThreadMetadata K) : Prop where
  cwd : row.cwd = []
  preview : row.preview = none
  title : row.title = []
  firstUserMessage : row.firstUserMessage = none
  modelProvider : row.modelProvider ≠ []

theorem Blank.level {row} (h : Blank row) {cwd} (hcwd : cwd.any (!·.isEmpty) = false) :
    Level codecs ⟨.forResume row.id cwd, row⟩ row where
  shown := by
    change row.facts = row.facts.normalized codecs
    have hempty : row.facts.cwd = [] := h.cwd
    rw [Facts.normalized, if_pos hempty, ← hempty]
  tracks := by
    refine ⟨rfl, ?_, ?_, ?_, ?_, h.modelProvider, ?_, ?_, ?_⟩
    · simp [ThreadMetadataSync.forResume, h.cwd, hcwd]
    · simp [ThreadMetadataSync.forResume, h.preview]
    · simp [ThreadMetadataSync.forResume, h.firstUserMessage]
    · simp [ThreadMetadataSync.forResume, h.title]
    · simp [h.preview]
    · simp [h.firstUserMessage]
    · simp [h.firstUserMessage]
  name := rfl

/-- **Live metadata is rebuilt metadata**, whatever the batches and the applications that fail, if no resume metadata
stands in for the working directory and no failure is passed over in silence. -/
theorem live_facts_eq_rebuilt {row : ThreadMetadata K} (hrow : Blank row) {cwd : Option Text}
    (hcwd : cwd.any (!·.isEmpty) = false) (path : Option Text) (defaultProvider : Text) {events : List (LiveEvent K)}
    (hlogged : ∀ event ∈ events, event.outcome ≠ .logged)
    (hitems : ∀ event ∈ events, ∀ item ∈ event.items, item.NamesProvider) (clock : Clock) :
    (Live.run codecs path ⟨.forResume row.id cwd, row⟩ (events ++ [.flush clock .applied])).row.facts =
      ((events.flatMap LiveEvent.items).foldl (applyRolloutItem codecs defaultProvider) row).facts.normalized codecs := by
  rw [Live.run, List.foldl_append]
  exact ((hrow.level hcwd).run path hlogged hitems defaultProvider).flush path clock

end

section Samples

def plainKinds : Kinds where
  Source := Unit
  ThreadSource := Unit
  Effort := Unit
  Approval := Unit
  Profile := Unit

def plainCodecs : Codecs plainKinds where
  parseSessionTimestamp _ := none
  source _ := "cli".toList
  approval _ := "never".toList
  profile _ := "read-only".toList
  normalizeForPathComparison := some

def plainRow (provider : Text) : ThreadMetadata plainKinds where
  id := "t".toList
  rolloutPath := "r".toList
  historyMode := .legacy
  source := "cli".toList
  threadSource := none
  agentNickname := none
  agentRole := none
  agentPath := none
  modelProvider := provider
  model := none
  reasoningEffort := none
  cwd := []
  cliVersion := []
  title := []
  name := none
  preview := none
  sandboxPolicy := []
  approvalMode := []
  tokensUsed := 0
  firstUserMessage := none
  isPinned := false
  gitSha := none
  gitBranch := none
  gitOriginUrl := none

def plainTurnContext : RolloutItem plainKinds := .turnContext
  { cwd := ⟨"/repo".toList, by decide⟩, model := "m".toList, effort := none, approvalPolicy := (), permissionProfile := () }

def plainMessage : RolloutItem plainKinds := .eventMsg (.userMessage { message := "hello".toList })

def plainClock : Clock := ⟨0, 0⟩

/-- The row of a thread resumed with `cwd`, after the events and a last flush. -/
def plainLive (provider : Text) (cwd : Option Text) (events : List (LiveEvent plainKinds)) : ThreadMetadata plainKinds :=
  (Live.run plainCodecs none ⟨.forResume "t".toList cwd, plainRow provider⟩ (events ++ [.flush plainClock .applied])).row

def plainRebuilt (provider : Text) (items : List (RolloutItem plainKinds)) : ThreadMetadata plainKinds :=
  items.foldl (applyRolloutItem plainCodecs "openai".toList) (plainRow provider)

/-- A batch that fails, one that is written but fails, and the flush that makes up for them. -/
theorem live_facts_eq_rebuilt_retried :
    (plainLive "p".toList none [.append plainClock [plainMessage] (.failed false),
        .append plainClock [plainTurnContext] (.failed true)]).facts =
      (plainRebuilt "p".toList [plainMessage, plainTurnContext]).facts.normalized plainCodecs ∧
    (plainRebuilt "p".toList [plainMessage, plainTurnContext]).preview = some "hello".toList :=
  ⟨live_facts_eq_rebuilt (show Blank (plainRow "p".toList) from ⟨rfl, rfl, rfl, rfl, by decide⟩) rfl none "openai".toList
    (by decide) (by simp [LiveEvent.items, plainMessage, plainTurnContext, RolloutItem.NamesProvider]) plainClock, by decide⟩

/-- **Where they differ.** A working directory in the resume metadata keeps the first turn's out of
the row; only rebuilding fills in a provider the row lacks; a failure that is only logged is not
retried. -/
theorem live_facts_ne_rebuilt :
    (plainLive "p".toList (some "/home".toList) [.append plainClock [plainTurnContext] .applied]).facts ≠
      (plainRebuilt "p".toList [plainTurnContext]).facts.normalized plainCodecs ∧
    (plainLive [] none [.append plainClock [.compacted] .applied]).facts ≠
      (plainRebuilt [] [.compacted]).facts.normalized plainCodecs ∧
    (plainLive "p".toList none [.append plainClock [plainMessage] .logged]).facts ≠
      (plainRebuilt "p".toList [plainMessage]).facts.normalized plainCodecs := by
  refine ⟨fun h => ?_, fun h => ?_, fun h => ?_⟩
  · exact absurd (congrArg Facts.cwd h) (by decide)
  · exact absurd (congrArg Facts.modelProvider h) (by decide)
  · exact absurd (congrArg Facts.title h) (by decide)

end Samples

end Codex.Metadata
