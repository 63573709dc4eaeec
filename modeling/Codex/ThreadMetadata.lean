/-
Thread metadata, kept live and rebuilt. `ThreadMetadataSync`
(`thread-store/src/thread_metadata_sync.rs`) derives patches from the items a
live thread appends; `apply_metadata_update`
(`thread-store/src/local/update_thread_metadata.rs`) writes one to the thread's
row; `apply_rollout_item` (`state/src/extract.rs`) rebuilds the row from the
items themselves.

A row is the `ThreadMetadata` that `get_thread` reads. Its timestamps, which the
database allocates, are left out, as are the columns no patch sets. What the
code only hands on (session sources, efforts, policies, profiles) are the types
of `Kinds`; serialisation, timestamps and the file system are in `Codecs`.
-/
import Codex.Protocol
import Mathlib.Algebra.Group.Defs
import Mathlib.Algebra.BigOperators.Group.List.Basic

namespace Codex.Metadata

open Text

structure Kinds where
  Source : Type
  ThreadSource : Type
  Effort : Type
  Approval : Type
  Profile : Type

/-! ## Rollout items -/

/-- `AbsolutePathBuf`: a path that is not empty. -/
structure AbsolutePath where
  path : Text
  nonempty : path ≠ []

structure GitInfo where
  commitHash : Option Text
  branch : Option Text
  repositoryUrl : Option Text

inductive MemoryMode where
  | enabled
  | disabled
  deriving DecidableEq

structure SessionMetaLine (K : Kinds) where
  id : Text
  timestamp : Text
  cwd : Text
  cliVersion : Text
  source : K.Source
  threadSource : Option K.ThreadSource
  agentNickname : Option Text
  agentRole : Option Text
  agentPath : Option Text
  modelProvider : Option Text
  memoryMode : Option Text
  git : Option GitInfo

/-- `permissionProfile` is what the method of that name returns. -/
structure TurnContextItem (K : Kinds) where
  cwd : AbsolutePath
  model : Text
  effort : Option K.Effort
  approvalPolicy : K.Approval
  permissionProfile : K.Profile

structure ThreadSettingsSnapshot (K : Kinds) where
  model : Text
  modelProviderId : Text
  approvalPolicy : K.Approval
  permissionProfile : K.Profile
  cwd : AbsolutePath
  reasoningEffort : Option K.Effort

structure TokenUsage where
  totalTokens : Int

inductive UserInput where
  | text (text : Text)
  | image (imageUrl : String)
  | localImage (path : String)
  | audio (audioUrl : String)
  | localAudio (path : String)
  | skill
  | mention

inductive TurnItem where
  | userMessage (content : List UserInput)
  | other

inductive EventMsg (K : Kinds) where
  | tokenCount (info : Option TokenUsage)
  | userMessage (user : UserMessageEvent)
  | itemCompleted (item : TurnItem)
  | threadGoalUpdated (objective : Text)
  | threadSettingsApplied (settings : ThreadSettingsSnapshot K)
  | turnStarted
  | other

inductive RolloutItem (K : Kinds) where
  | sessionMeta (line : SessionMetaLine K)
  | turnContext (item : TurnContextItem K)
  | eventMsg (event : EventMsg K)
  | responseItem
  | interAgentCommunication
  | interAgentCommunicationMetadata
  | compacted
  | worldState

/-- `UserMessageItem::as_legacy_user_message_event`, without the details of images and the
elements of the text. -/
def asLegacyUserMessageEvent (content : List UserInput) : UserMessageEvent where
  message := (content.map fun
    | .text text => text
    | _ => []).flatten
  images := some (content.filterMap fun
    | .image url => some url
    | _ => none)
  localImages := content.filterMap fun
    | .localImage path => some path
    | _ => none
  audio := some (content.filterMap fun
    | .audio url => some url
    | _ => none)
  localAudio := content.filterMap fun
    | .localAudio path => some path
    | _ => none

def userMessageBegin : Text := "## My request for Codex:".toList

def stripUserMessagePrefix (text : Text) : Text :=
  match splitOnce userMessageBegin text with
  | some (_, rest) => trim rest
  | none => trim text

def userMessagePreview (user : UserMessageEvent) : Option Text :=
  let message := stripUserMessagePrefix user.message
  if message ≠ [] then some message
  else if user.images.any (!·.isEmpty) || !user.localImages.isEmpty then some "[Image]".toList
  else if user.audio.any (!·.isEmpty) || !user.localAudio.isEmpty then some "[Audio]".toList
  else none

def rolloutItemAffectsThreadMetadata {K : Kinds} : RolloutItem K → Bool
  | .sessionMeta _ | .turnContext _ => true
  | .eventMsg (.tokenCount _) | .eventMsg (.userMessage _) | .eventMsg (.threadGoalUpdated _)
  | .eventMsg (.threadSettingsApplied _) => true
  | .eventMsg (.itemCompleted (.userMessage _)) => true
  | _ => false

/-! ## Patches -/

structure GitInfoPatch where
  sha : Option (Option Text) := none
  branch : Option (Option Text) := none
  originUrl : Option (Option Text) := none
  deriving DecidableEq

def GitInfoPatch.merge (self next : GitInfoPatch) : GitInfoPatch where
  sha := next.sha.or self.sha
  branch := next.branch.or self.branch
  originUrl := next.originUrl.or self.originUrl

/-- An absent field leaves a value unchanged; in a field whose value may be cleared, `some none`
clears it. -/
structure ThreadMetadataPatch (K : Kinds) where
  name : Option (Option Text) := none
  rolloutPath : Option Text := none
  preview : Option Text := none
  title : Option Text := none
  modelProvider : Option Text := none
  model : Option Text := none
  reasoningEffort : Option (Option K.Effort) := none
  createdAt : Option Int := none
  updatedAt : Option Int := none
  advanceRecencyAt : Option Int := none
  source : Option K.Source := none
  threadSource : Option (Option K.ThreadSource) := none
  agentNickname : Option (Option Text) := none
  agentRole : Option (Option Text) := none
  agentPath : Option (Option Text) := none
  cwd : Option Text := none
  cliVersion : Option Text := none
  approvalMode : Option K.Approval := none
  permissionProfile : Option K.Profile := none
  tokenUsage : Option TokenUsage := none
  firstUserMessage : Option Text := none
  isPinned : Option Bool := none
  gitInfo : Option GitInfoPatch := none
  memoryMode : Option MemoryMode := none

namespace ThreadMetadataPatch

variable {K : Kinds}

def merge (self next : ThreadMetadataPatch K) : ThreadMetadataPatch K where
  name := next.name.or self.name
  rolloutPath := next.rolloutPath.or self.rolloutPath
  preview := next.preview.or self.preview
  title := next.title.or self.title
  modelProvider := next.modelProvider.or self.modelProvider
  model := next.model.or self.model
  reasoningEffort := next.reasoningEffort.or self.reasoningEffort
  createdAt := next.createdAt.or self.createdAt
  updatedAt := next.updatedAt.or self.updatedAt
  advanceRecencyAt := next.advanceRecencyAt.or self.advanceRecencyAt
  source := next.source.or self.source
  threadSource := next.threadSource.or self.threadSource
  agentNickname := next.agentNickname.or self.agentNickname
  agentRole := next.agentRole.or self.agentRole
  agentPath := next.agentPath.or self.agentPath
  cwd := next.cwd.or self.cwd
  cliVersion := next.cliVersion.or self.cliVersion
  approvalMode := next.approvalMode.or self.approvalMode
  permissionProfile := next.permissionProfile.or self.permissionProfile
  tokenUsage := next.tokenUsage.or self.tokenUsage
  firstUserMessage := next.firstUserMessage.or self.firstUserMessage
  isPinned := next.isPinned.or self.isPinned
  gitInfo := match next.gitInfo with
    | some gitInfo => some ((self.gitInfo.getD {}).merge gitInfo)
    | none => self.gitInfo
  memoryMode := next.memoryMode.or self.memoryMode

/-- `update_has_metadata_facts` -/
def hasMetadataFacts (update : ThreadMetadataPatch K) : Bool :=
  update.rolloutPath.isSome || update.preview.isSome || update.title.isSome || update.modelProvider.isSome ||
    update.model.isSome || update.reasoningEffort.isSome || update.createdAt.isSome || update.advanceRecencyAt.isSome ||
    update.source.isSome || update.threadSource.isSome || update.agentNickname.isSome || update.agentRole.isSome ||
    update.agentPath.isSome || update.cwd.isSome || update.cliVersion.isSome || update.approvalMode.isSome ||
    update.permissionProfile.isSome || update.tokenUsage.isSome || update.firstUserMessage.isSome ||
    update.gitInfo.isSome || update.memoryMode.isSome

end ThreadMetadataPatch

/-! ## The live side -/

/-- What the code calls and the repository does not define. -/
structure Codecs (K : Kinds) where
  parseSessionTimestamp : Text → Option Int
  /-- `enum_to_string` of a session source. -/
  source : K.Source → Text
  /-- `enum_to_string` of an approval policy. -/
  approval : K.Approval → Text
  /-- `serde_json::to_string` of a permission profile. -/
  profile : K.Profile → Text
  /-- `normalize_for_path_comparison`, which fails on paths that do not exist. -/
  normalizeForPathComparison : Text → Option Text

/-- The clocks a call reads: `Instant::now()`, in milliseconds, and `Utc::now()`. -/
structure Clock where
  instant : Nat
  utc : Int

def touchInterval : Nat := 5000

structure ThreadMetadataSync (K : Kinds) where
  threadId : Text
  cwdSeen : Bool := false
  previewSeen : Bool := false
  firstUserMessageSeen : Bool := false
  titleSeen : Bool := false
  pendingUpdate : Option (ThreadMetadataPatch K) := none
  /-- A `u64` that wraps. -/
  pendingUpdateGeneration : Nat := 0
  lastTouchPersistedAt : Option Nat := none
  deferCreateUpdateUntilHistoryExists : Bool := false
  deferResumeUpdateUntilAppend : Bool := false

structure PendingThreadMetadataPatch (K : Kinds) where
  patch : ThreadMetadataPatch K
  generation : Nat

def parseMemoryMode (value : Text) : Option MemoryMode :=
  if value = "enabled".toList then some .enabled
  else if value = "disabled".toList then some .disabled
  else none

def gitInfoPatchFromObservation (gitInfo : GitInfo) : GitInfoPatch where
  sha := gitInfo.commitHash.map some
  branch := gitInfo.branch.map some
  originUrl := gitInfo.repositoryUrl.map some

namespace ThreadMetadataSync

variable {K : Kinds}

/-- `for_resume` of a thread whose history is not loaded; `cwd` is the resume metadata's. -/
def forResume (threadId : Text) (cwd : Option Text) : ThreadMetadataSync K where
  threadId := threadId
  cwdSeen := cwd.any (!·.isEmpty)

def takePendingUpdate (sync : ThreadMetadataSync K) : Option (PendingThreadMetadataPatch K) :=
  sync.pendingUpdate.map fun patch => { patch, generation := sync.pendingUpdateGeneration }

def takePendingUpdateForExistingHistory (sync : ThreadMetadataSync K) : Option (PendingThreadMetadataPatch K) :=
  if sync.deferCreateUpdateUntilHistoryExists then none
  else if sync.deferResumeUpdateUntilAppend then none
  else sync.takePendingUpdate

def markPendingUpdateApplied (sync : ThreadMetadataSync K) (clock : Clock) (update : PendingThreadMetadataPatch K) :
    ThreadMetadataSync K :=
  { sync with
    pendingUpdate := if sync.pendingUpdateGeneration = update.generation then none else sync.pendingUpdate
    lastTouchPersistedAt := if update.patch.updatedAt.isSome then some clock.instant else sync.lastTouchPersistedAt }

def mergePendingUpdate (sync : ThreadMetadataSync K) (update : ThreadMetadataPatch K) : ThreadMetadataSync K :=
  { sync with
    pendingUpdate := some (match sync.pendingUpdate with
      | some pendingUpdate => pendingUpdate.merge update
      | none => update)
    pendingUpdateGeneration := (sync.pendingUpdateGeneration + 1) % 2 ^ 64 }

def observeUserMessage (sync : ThreadMetadataSync K) (update : ThreadMetadataPatch K) (user : UserMessageEvent) :
    ThreadMetadataSync K × ThreadMetadataPatch K :=
  let (sync, update) := match userMessagePreview user with
    | none => (sync, update)
    | some preview =>
      let (sync, update) := if sync.firstUserMessageSeen then (sync, update)
        else ({ sync with firstUserMessageSeen := true }, { update with firstUserMessage := some preview })
      if sync.previewSeen then (sync, update)
      else ({ sync with previewSeen := true }, { update with preview := some preview })
  if sync.titleSeen then (sync, update)
  else
    let title := stripUserMessagePrefix user.message
    if title = [] then (sync, update)
    else ({ sync with titleSeen := true }, { update with title := some title })

/-- The loop body of `observe_items_with_update`. -/
def observeItem (codecs : Codecs K) : ThreadMetadataSync K × ThreadMetadataPatch K → RolloutItem K →
    ThreadMetadataSync K × ThreadMetadataPatch K
  | (sync, update), .sessionMeta line =>
    if line.id = sync.threadId then
      ({ sync with cwdSeen := sync.cwdSeen || line.cwd != [] },
        { update with
          createdAt := codecs.parseSessionTimestamp line.timestamp
          source := some line.source
          threadSource := some line.threadSource
          agentNickname := some line.agentNickname
          agentRole := some line.agentRole
          agentPath := some line.agentPath
          modelProvider := match line.modelProvider with
            | some provider => if provider ≠ [] then some provider else update.modelProvider
            | none => update.modelProvider
          cliVersion := if line.cliVersion ≠ [] then some line.cliVersion else update.cliVersion
          cwd := if line.cwd ≠ [] then some line.cwd else update.cwd
          gitInfo := match line.git with
            | some gitInfo => some (gitInfoPatchFromObservation gitInfo)
            | none => update.gitInfo
          memoryMode := ((line.memoryMode.bind parseMemoryMode)).or update.memoryMode })
    else (sync, update)
  | (sync, update), .turnContext turnCtx =>
    ({ sync with cwdSeen := true },
      { update with
        cwd := if sync.cwdSeen then update.cwd else some turnCtx.cwd.path
        model := some turnCtx.model
        reasoningEffort := some turnCtx.effort
        approvalMode := some turnCtx.approvalPolicy
        permissionProfile := some turnCtx.permissionProfile })
  | (sync, update), .eventMsg (.userMessage user) => sync.observeUserMessage update user
  | (sync, update), .eventMsg (.itemCompleted (.userMessage content)) =>
    sync.observeUserMessage update (asLegacyUserMessageEvent content)
  | (sync, update), .eventMsg (.tokenCount (some usage)) => (sync, { update with tokenUsage := some usage })
  | (sync, update), .eventMsg (.threadGoalUpdated objective) =>
    if sync.previewSeen then (sync, update)
    else if trim objective = [] then (sync, update)
    else ({ sync with previewSeen := true }, { update with preview := some (trim objective) })
  | (sync, update), .eventMsg (.threadSettingsApplied settings) =>
    ({ sync with cwdSeen := true },
      { update with
        model := some settings.model
        modelProvider := some settings.modelProviderId
        reasoningEffort := some settings.reasoningEffort
        cwd := some settings.cwd.path
        approvalMode := some settings.approvalPolicy
        permissionProfile := some settings.permissionProfile })
  | (sync, update), _ => (sync, update)

def advancesRecency : RolloutItem K → Bool
  | .eventMsg .turnStarted => true
  | _ => false

/-- The patch `observe_appended_items` merges, and the flags it leaves. -/
def observedUpdate (codecs : Codecs K) (sync : ThreadMetadataSync K) (clock : Clock) (items : List (RolloutItem K)) :
    ThreadMetadataSync K × ThreadMetadataPatch K :=
  let (sync, update) := if items.any rolloutItemAffectsThreadMetadata
    then items.foldl (observeItem codecs) (sync, { updatedAt := some clock.utc })
    else (sync, { updatedAt := some clock.utc })
  (sync, if items.any advancesRecency then { update with advanceRecencyAt := some clock.utc } else update)

/-- The touch of items that hold no facts waits when one has been persisted a moment ago. -/
def touchWaits (sync : ThreadMetadataSync K) (clock : Clock) (items : List (RolloutItem K)) : Bool :=
  !items.any rolloutItemAffectsThreadMetadata && !sync.pendingUpdate.any (·.hasMetadataFacts) &&
    sync.lastTouchPersistedAt.any (clock.instant - · < touchInterval)

def observeAppendedItems (codecs : Codecs K) (sync : ThreadMetadataSync K) (clock : Clock) (items : List (RolloutItem K)) :
    ThreadMetadataSync K × Option (PendingThreadMetadataPatch K) :=
  let sync := { sync with
    deferCreateUpdateUntilHistoryExists := false
    deferResumeUpdateUntilAppend := false }
  let (sync, update) := sync.observedUpdate codecs clock items
  let sync := sync.mergePendingUpdate update
  (sync, if sync.touchWaits clock items then none else sync.takePendingUpdate)

end ThreadMetadataSync

/-! ## Rows -/

structure ThreadMetadata (K : Kinds) where
  id : Text
  rolloutPath : Text
  historyMode : ThreadHistoryMode
  source : Text
  threadSource : Option K.ThreadSource
  agentNickname : Option Text
  agentRole : Option Text
  agentPath : Option Text
  modelProvider : Text
  model : Option Text
  reasoningEffort : Option K.Effort
  cwd : Text
  cliVersion : Text
  title : Text
  name : Option Text
  preview : Option Text
  sandboxPolicy : Text
  approvalMode : Text
  tokensUsed : Int
  firstUserMessage : Option Text
  isPinned : Bool
  gitSha : Option Text
  gitBranch : Option Text
  gitOriginUrl : Option Text

section
variable {K : Kinds} (codecs : Codecs K)

def normalizeCwd (cwd : Text) : Text := (codecs.normalizeForPathComparison cwd).getD cwd

/-- The assignments of `apply_metadata_update` to the row it has read. -/
def assign (patch : ThreadMetadataPatch K) (metadata : ThreadMetadata K) : ThreadMetadata K :=
  { metadata with
    preview := patch.preview.or metadata.preview
    title := patch.title.getD metadata.title
    modelProvider := patch.modelProvider.getD metadata.modelProvider
    model := patch.model.or metadata.model
    reasoningEffort := patch.reasoningEffort.getD metadata.reasoningEffort
    source := (patch.source.map codecs.source).getD metadata.source
    threadSource := patch.threadSource.getD metadata.threadSource
    agentNickname := patch.agentNickname.getD metadata.agentNickname
    agentRole := patch.agentRole.getD metadata.agentRole
    agentPath := patch.agentPath.getD metadata.agentPath
    cwd := (patch.cwd.map (normalizeCwd codecs)).getD metadata.cwd
    cliVersion := patch.cliVersion.getD metadata.cliVersion
    approvalMode := (patch.approvalMode.map codecs.approval).getD metadata.approvalMode
    sandboxPolicy := (patch.permissionProfile.map codecs.profile).getD metadata.sandboxPolicy
    tokensUsed := (patch.tokenUsage.map fun usage => max usage.totalTokens 0).getD metadata.tokensUsed
    firstUserMessage := patch.firstUserMessage.or metadata.firstUserMessage
    isPinned := patch.isPinned.getD metadata.isPinned
    gitSha := (patch.gitInfo.bind (·.sha)).getD metadata.gitSha
    gitBranch := (patch.gitInfo.bind (·.branch)).getD metadata.gitBranch
    gitOriginUrl := (patch.gitInfo.bind (·.originUrl)).getD metadata.gitOriginUrl }

def nonEmpty (text : Text) : Option Text := if text = [] then none else some text

/-- `upsert_thread` on the row there is, as `get_thread` reads it back. -/
def upsertThread (existing metadata : ThreadMetadata K) : ThreadMetadata K :=
  { metadata with
    preview := (nonEmpty ((metadata.preview.or metadata.firstUserMessage).getD [])).or existing.preview
    firstUserMessage := nonEmpty (metadata.firstUserMessage.getD [])
    name := existing.name
    isPinned := existing.isPinned
    gitSha := existing.gitSha.or metadata.gitSha
    gitBranch := existing.gitBranch.or metadata.gitBranch
    gitOriginUrl := existing.gitOriginUrl.or metadata.gitOriginUrl }

/-- `apply_metadata_update` of a thread that has a row; `liveRolloutPath` is its open writer's. -/
def applyMetadataUpdate (liveRolloutPath : Option Text) (patch : ThreadMetadataPatch K) (existing : ThreadMetadata K) :
    ThreadMetadata K :=
  let located := { existing with rolloutPath := (patch.rolloutPath.or liveRolloutPath).getD existing.rolloutPath }
  let row := upsertThread existing (assign codecs patch located)
  let row := { row with isPinned := patch.isPinned.getD row.isPinned }
  match patch.name, existing.historyMode with
  | none, _ => row
  | some name, .legacy => { row with title := name.getD [] }
  | some name, .paginated => { row with name }

/-! ## The rebuilt side -/

def setPreviewIfEmpty (metadata : ThreadMetadata K) (preview : Option Text) : ThreadMetadata K :=
  { metadata with preview := metadata.preview.or preview }

def applyUserMessage (metadata : ThreadMetadata K) (user : UserMessageEvent) : ThreadMetadata K :=
  let preview := userMessagePreview user
  let metadata := { metadata with firstUserMessage := metadata.firstUserMessage.or preview }
  let metadata := setPreviewIfEmpty metadata preview
  if metadata.title = [] then
    let title := stripUserMessagePrefix user.message
    if title ≠ [] then { metadata with title } else metadata
  else metadata

def applySessionMetaFromItem (metadata : ThreadMetadata K) (line : SessionMetaLine K) : ThreadMetadata K :=
  if metadata.id ≠ line.id then metadata
  else
    { metadata with
      source := codecs.source line.source
      threadSource := line.threadSource
      agentNickname := line.agentNickname
      agentRole := line.agentRole
      agentPath := line.agentPath
      modelProvider := line.modelProvider.getD metadata.modelProvider
      cliVersion := if line.cliVersion ≠ [] then line.cliVersion else metadata.cliVersion
      cwd := if line.cwd ≠ [] then line.cwd else metadata.cwd
      gitSha := match line.git with
        | some git => git.commitHash
        | none => metadata.gitSha
      gitBranch := match line.git with
        | some git => git.branch
        | none => metadata.gitBranch
      gitOriginUrl := match line.git with
        | some git => git.repositoryUrl
        | none => metadata.gitOriginUrl }

def applyTurnContext (metadata : ThreadMetadata K) (turnCtx : TurnContextItem K) : ThreadMetadata K :=
  { metadata with
    cwd := if metadata.cwd = [] then turnCtx.cwd.path else metadata.cwd
    model := some turnCtx.model
    reasoningEffort := turnCtx.effort
    sandboxPolicy := codecs.profile turnCtx.permissionProfile
    approvalMode := codecs.approval turnCtx.approvalPolicy }

def applyEventMsg (metadata : ThreadMetadata K) : EventMsg K → ThreadMetadata K
  | .tokenCount (some usage) => { metadata with tokensUsed := max usage.totalTokens 0 }
  | .userMessage user => applyUserMessage metadata user
  | .itemCompleted (.userMessage content) => applyUserMessage metadata (asLegacyUserMessageEvent content)
  | .threadGoalUpdated objective =>
    if trim objective ≠ [] then setPreviewIfEmpty metadata (some (trim objective)) else metadata
  | .threadSettingsApplied settings =>
    { metadata with
      model := some settings.model
      modelProvider := settings.modelProviderId
      reasoningEffort := settings.reasoningEffort
      cwd := settings.cwd.path
      sandboxPolicy := codecs.profile settings.permissionProfile
      approvalMode := codecs.approval settings.approvalPolicy }
  | _ => metadata

def applyRolloutItem (defaultProvider : Text) (metadata : ThreadMetadata K) (item : RolloutItem K) : ThreadMetadata K :=
  let metadata := match item with
    | .sessionMeta line => applySessionMetaFromItem codecs metadata line
    | .turnContext turnCtx => applyTurnContext codecs metadata turnCtx
    | .eventMsg event => applyEventMsg codecs metadata event
    | _ => metadata
  if metadata.modelProvider = [] then { metadata with modelProvider := defaultProvider } else metadata

end

end Codex.Metadata
