/-
Thread metadata read from a rollout. `extract_metadata_from_rollout`
(`rollout/src/metadata.rs`) builds a row from the first session metadata, applies
every record to it and takes the memory mode from the last record that has one;
`apply_rollout_items` (`state/src/runtime/threads.rs`) does the same to a stored
row. `apply_thread_memory_mode` and `apply_thread_git_info_to_rollout`
(`thread-store/src/local/update_thread_metadata.rs`) append a changed copy of the
first session metadata.

A rollout is the list of its readable records, with the history mode of its first
session metadata, which records leave out. Reading and writing files does not
fail; of the timestamps only that a session's may be malformed is kept.
-/
import Codex.Lib.LastWrites
import Codex.ThreadMetadata

namespace Codex.Metadata

/-! ## Rollouts -/

structure Rollout (K : Kinds) where
  path : Text
  /-- The id in the name of the file, `parse_timestamp_uuid_from_filename`. -/
  fileNameId : Option Text
  historyMode : ThreadHistoryMode
  items : List (RolloutItem K)

/-- What extraction calls besides. -/
structure Extraction (K : Kinds) extends Codecs K where
  parseTimestampToUtc : Text → Option Int
  /-- `SessionSource::get_agent_path` -/
  sourceAgentPath : K.Source → Option Text
  /-- `SessionSource::default()` -/
  defaultSource : K.Source
  /-- `SandboxPolicy::new_read_only_policy()`, as a string. -/
  readOnlyPolicy : Text
  /-- `AskForApproval::OnRequest` -/
  onRequest : K.Approval
  defaultProvider : Text

structure ThreadMetadataBuilder (K : Kinds) where
  id : Text
  rolloutPath : Text
  source : K.Source
  historyMode : ThreadHistoryMode := .legacy
  threadSource : Option K.ThreadSource := none
  agentNickname : Option Text := none
  agentRole : Option Text := none
  agentPath : Option Text := none
  modelProvider : Option Text := none
  cwd : Text := []
  cliVersion : Option Text := none
  gitSha : Option Text := none
  gitBranch : Option Text := none
  gitOriginUrl : Option Text := none

section
variable {K : Kinds} (codecs : Extraction K)

/-- Every builder has the read-only policy and asks on request. -/
def ThreadMetadataBuilder.build (builder : ThreadMetadataBuilder K) : ThreadMetadata K where
  id := builder.id
  rolloutPath := builder.rolloutPath
  historyMode := builder.historyMode
  source := codecs.source builder.source
  threadSource := builder.threadSource
  agentNickname := builder.agentNickname
  agentRole := builder.agentRole
  agentPath := builder.agentPath.or (codecs.sourceAgentPath builder.source)
  modelProvider := builder.modelProvider.getD codecs.defaultProvider
  model := none
  reasoningEffort := none
  cwd := builder.cwd
  cliVersion := builder.cliVersion.getD []
  title := []
  name := none
  preview := none
  sandboxPolicy := codecs.readOnlyPolicy
  approvalMode := codecs.approval codecs.onRequest
  tokensUsed := 0
  firstUserMessage := none
  isPinned := false
  gitSha := builder.gitSha
  gitBranch := builder.gitBranch
  gitOriginUrl := builder.gitOriginUrl

def sessionMetaOf : RolloutItem K → Option (SessionMetaLine K)
  | .sessionMeta line => some line
  | _ => none

def builderFromSessionMeta (rollout : Rollout K) (line : SessionMetaLine K) : Option (ThreadMetadataBuilder K) :=
  (codecs.parseTimestampToUtc line.timestamp).map fun _ =>
    { id := line.id
      rolloutPath := rollout.path
      source := line.source
      historyMode := rollout.historyMode
      agentNickname := line.agentNickname
      agentRole := line.agentRole
      agentPath := line.agentPath
      modelProvider := line.modelProvider
      cwd := line.cwd
      cliVersion := some line.cliVersion
      gitSha := line.git.bind (·.commitHash)
      gitBranch := line.git.bind (·.branch)
      gitOriginUrl := line.git.bind (·.repositoryUrl) }

def builderFromItems (rollout : Rollout K) : Option (ThreadMetadataBuilder K) :=
  ((rollout.items.findSome? sessionMetaOf).bind (builderFromSessionMeta codecs rollout)).or
    (rollout.fileNameId.map fun id => { id, rolloutPath := rollout.path, source := codecs.defaultSource })

structure ExtractionOutcome (K : Kinds) where
  metadata : ThreadMetadata K
  memoryMode : Option Text

def memoryModeOf (item : RolloutItem K) : Option Text := (sessionMetaOf item).bind (·.memoryMode)

/-- The scan of both crates, `extract_memory_mode` in one of them. -/
def extractMemoryMode (items : List (RolloutItem K)) : Option Text := items.reverse.findSome? memoryModeOf

def extractMetadataFromRollout (rollout : Rollout K) : Except Text (ExtractionOutcome K) :=
  if rollout.items.isEmpty then .error ("empty session file: ".toList ++ rollout.path)
  else match builderFromItems codecs rollout with
    | none => .error ("rollout missing metadata builder: ".toList ++ rollout.path)
    | some builder => .ok
      { metadata := rollout.items.foldl (applyRolloutItem codecs.toCodecs codecs.defaultProvider) (builder.build codecs)
        memoryMode := extractMemoryMode rollout.items }

/-! ## Stored rows -/

/-- A row with its `memory_mode` column. -/
structure StoredThread (K : Kinds) where
  metadata : ThreadMetadata K
  memoryMode : Text

def preferExistingGitInfo (metadata existing : ThreadMetadata K) : ThreadMetadata K :=
  if metadata.historyMode = .paginated ∧ existing.historyMode = .paginated then
    { metadata with
      gitSha := existing.gitSha
      gitBranch := existing.gitBranch
      gitOriginUrl := existing.gitOriginUrl }
  else
    { metadata with
      gitSha := existing.gitSha.or metadata.gitSha
      gitBranch := existing.gitBranch.or metadata.gitBranch
      gitOriginUrl := existing.gitOriginUrl.or metadata.gitOriginUrl }

/-- `upsert_thread` without a row there, as `get_thread` reads it back. -/
def insertThread (metadata : ThreadMetadata K) : ThreadMetadata K :=
  { metadata with
    preview := nonEmpty ((metadata.preview.or metadata.firstUserMessage).getD [])
    firstUserMessage := nonEmpty (metadata.firstUserMessage.getD []) }

/-- `apply_rollout_items`; `existing` is the row of the builder's thread. -/
def applyRolloutItems (existing : Option (StoredThread K)) (builder : ThreadMetadataBuilder K) (items : List (RolloutItem K))
    (newThreadMemoryMode : Option Text) : Option (StoredThread K) :=
  if items.isEmpty then existing
  else
    let metadata := (existing.map (·.metadata)).getD (builder.build codecs)
    let metadata := items.foldl (applyRolloutItem codecs.toCodecs codecs.defaultProvider)
      { metadata with rolloutPath := builder.rolloutPath }
    let stored : StoredThread K := match existing with
      | some existing =>
        { metadata := upsertThread existing.metadata (preferExistingGitInfo metadata existing.metadata)
          memoryMode := existing.memoryMode }
      | none => { metadata := insertThread metadata, memoryMode := newThreadMemoryMode.getD "enabled".toList }
    some { stored with memoryMode := (extractMemoryMode items).getD stored.memoryMode }

/-! ## Explicit updates -/

def readSessionMetaLine (path : Text) : List (RolloutItem K) → Except Text (SessionMetaLine K)
  | [] => .error ("rollout at ".toList ++ path ++ " is empty".toList)
  | .sessionMeta line :: _ => .ok line
  | .responseItem :: _ | .interAgentCommunication :: _ =>
    .error ("rollout at ".toList ++ path ++ " does not start with session metadata".toList)
  | _ :: items => readSessionMetaLine path items

def memoryModeAsStr : MemoryMode → Text
  | .enabled => "enabled".toList
  | .disabled => "disabled".toList

/-- What both updates do with the first session metadata. -/
def appendSessionMeta (operation : Text) (rollout : Rollout K) (threadId : Text)
    (update : SessionMetaLine K → SessionMetaLine K) : Except Text (Rollout K) :=
  match readSessionMetaLine rollout.path rollout.items with
  | .error err => .error (operation ++ ": ".toList ++ err)
  | .ok line =>
    if line.id ≠ threadId then
      .error (operation ++ ": rollout session metadata id mismatch: expected ".toList ++ threadId ++ ", found ".toList ++ line.id)
    else .ok { rollout with items := rollout.items ++ [.sessionMeta (update line)] }

def applyThreadMemoryMode (rollout : Rollout K) (threadId : Text) (memoryMode : MemoryMode) : Except Text (Rollout K) :=
  appendSessionMeta "failed to set thread memory mode".toList rollout threadId fun line =>
    { line with git := none, memoryMode := some (memoryModeAsStr memoryMode) }

def applyThreadGitInfoToRollout (rollout : Rollout K) (threadId : Text) (sha branch originUrl memoryMode : Option Text) :
    Except Text (Rollout K) :=
  appendSessionMeta "failed to set thread git metadata".toList rollout threadId fun line =>
    { line with git := some { commitHash := sha, branch, repositoryUrl := originUrl }, memoryMode }

end

end Codex.Metadata
