/-
What an explicit update of a legacy rollout changes. The record it appends is a copy of
the first session metadata, so that extraction applies that once more, at the end: the
fields that later records have changed go back to their first values.
-/
import Codex.Lib.Runs
import Codex.MetadataSync
import Codex.RolloutExtraction

namespace Codex.Metadata

open LastWrites

variable {K : Kinds}

/-! ## The first session metadata -/

/-- The first session metadata and the records after it. -/
def afterFirstMeta : List (RolloutItem K) → Option (SessionMetaLine K × List (RolloutItem K))
  | [] => none
  | .sessionMeta line :: later => some (line, later)
  | _ :: items => afterFirstMeta items

variable {items : List (RolloutItem K)} {first line : SessionMetaLine K} (metadata : ThreadMetadata K)

theorem afterFirstMeta_split {later}
    (h : afterFirstMeta items = some (first, later)) : ∃ earlier, items = earlier ++ .sessionMeta first :: later ∧
      ∀ item ∈ earlier, sessionMetaOf item = none := by
  induction items with
  | nil => cases h
  | cons item items ih =>
    have hnext : afterFirstMeta items = some (first, later) → sessionMetaOf item = none →
        ∃ earlier, item :: items = earlier ++ .sessionMeta first :: later ∧ ∀ item ∈ earlier, sessionMetaOf item = none := by
      intro hitems hnone
      obtain ⟨earlier, rfl, hearlier⟩ := ih hitems
      exact ⟨item :: earlier, rfl, List.forall_mem_cons.2 ⟨hnone, hearlier⟩⟩
    cases item with
    | sessionMeta line =>
      obtain ⟨rfl, rfl⟩ := h
      exact ⟨[], rfl, fun _ h => absurd h List.not_mem_nil⟩
    | turnContext _ => exact hnext h rfl
    | eventMsg _ => exact hnext h rfl
    | responseItem => exact hnext h rfl
    | interAgentCommunication => exact hnext h rfl
    | interAgentCommunicationMetadata => exact hnext h rfl
    | compacted => exact hnext h rfl
    | worldState => exact hnext h rfl

theorem afterFirstMeta_of_read {path : Text}
    (h : readSessionMetaLine path items = .ok line) : ∃ later, afterFirstMeta items = some (line, later) := by
  induction items with
  | nil => cases h
  | cons item items ih =>
    cases item with
    | sessionMeta first =>
      rw [readSessionMetaLine, Except.ok.injEq] at h
      subst h
      exact ⟨items, rfl⟩
    | responseItem => cases h
    | interAgentCommunication => cases h
    | turnContext _ => exact ih h
    | eventMsg _ => exact ih h
    | interAgentCommunicationMetadata => exact ih h
    | compacted => exact ih h
    | worldState => exact ih h

theorem findSome?_sessionMetaOf {earlier later} (first : SessionMetaLine K)
    (h : ∀ item ∈ earlier, sessionMetaOf item = none) :
    (earlier ++ .sessionMeta first :: later).findSome? sessionMetaOf = some first := by
  rw [List.findSome?_append, List.findSome?_eq_none_iff.2 h]
  rfl

/-! ## What writes a field -/

/-- The line of a thread's own session metadata. -/
def ownMeta (id : Text) (item : RolloutItem K) : Option (SessionMetaLine K) :=
  (sessionMetaOf item).filter fun line => line.id = id

def cliVersionWritten (id : Text) (item : RolloutItem K) : Option Text :=
  (ownMeta id item).bind fun line => nonEmpty line.cliVersion

def cwdWritten (id : Text) : RolloutItem K → Option Text
  | .eventMsg (.threadSettingsApplied settings) => some settings.cwd.path
  | item => (ownMeta id item).bind fun line => nonEmpty line.cwd

def modelProviderWritten (id : Text) : RolloutItem K → Option Text
  | .eventMsg (.threadSettingsApplied settings) => some settings.modelProviderId
  | item => (ownMeta id item).bind (·.modelProvider)

section
variable (codecs : Extraction K)

def withDefault (provider : Text) : Text := if provider = [] then codecs.defaultProvider else provider

/-- The fields that every session metadata of the thread writes. -/
def sourceFields (line : SessionMetaLine K) : Text × Option K.ThreadSource × Option Text × Option Text × Option Text :=
  (codecs.source line.source, line.threadSource, line.agentNickname, line.agentRole, line.agentPath)

/-- The last of the later records that write a field writes what the first session metadata does. -/
structure FirstMetaStands (first : SessionMetaLine K) (later : List (RolloutItem K)) : Prop where
  source : ∀ line ∈ last (ownMeta first.id) later, sourceFields codecs line = sourceFields codecs first
  cliVersion : first.cliVersion ≠ [] → ∀ v ∈ last (cliVersionWritten first.id) later, v = first.cliVersion
  cwd : first.cwd ≠ [] → ∀ v ∈ last (cwdWritten first.id) later, v = first.cwd
  modelProvider : ∀ provider ∈ first.modelProvider, ∀ v ∈ last (modelProviderWritten first.id) later,
    withDefault codecs v = withDefault codecs provider

/-- Applying the first session metadata of a rollout once more changes nothing: it is not the thread's that the
row is built for, or what it says still stands. -/
def CopyStands (rollout : Rollout K) : Prop :=
  ∀ first later, afterFirstMeta rollout.items = some (first, later) →
    (builderFromItems codecs rollout).map (·.id) = some first.id → FirstMetaStands codecs first later

variable {codecs}

/-! ## One record -/

/-- What messages and token counts write. -/
def withMessages (metadata : ThreadMetadata K) (title : Text) (preview firstUserMessage : Option Text) (tokensUsed : Int) :
    ThreadMetadata K :=
  { metadata with title, preview, firstUserMessage, tokensUsed }

theorem applyUserMessage_eq (user : UserMessageEvent) :
    ∃ title preview firstUserMessage tokensUsed, applyUserMessage metadata user =
      withMessages metadata title preview firstUserMessage tokensUsed := by
  unfold applyUserMessage
  extract_lets preview located shown
  split
  · split
    · exact ⟨stripUserMessagePrefix user.message, _, _, _, rfl⟩
    · exact ⟨_, _, _, _, rfl⟩
  · exact ⟨_, _, _, _, rfl⟩

theorem applyEventMsg_eq (event : EventMsg K) (h : ∀ settings, event ≠ .threadSettingsApplied settings) :
    ∃ title preview firstUserMessage tokensUsed, applyEventMsg codecs.toCodecs metadata event =
      withMessages metadata title preview firstUserMessage tokensUsed := by
  have hsame : ∃ title preview firstUserMessage tokensUsed,
      metadata = withMessages metadata title preview firstUserMessage tokensUsed :=
    ⟨metadata.title, metadata.preview, metadata.firstUserMessage, metadata.tokensUsed, rfl⟩
  unfold applyEventMsg
  split
  · exact ⟨metadata.title, metadata.preview, metadata.firstUserMessage, _, rfl⟩
  · exact applyUserMessage_eq metadata _
  · exact applyUserMessage_eq metadata _
  · split
    · exact ⟨metadata.title, _, metadata.firstUserMessage, metadata.tokensUsed, rfl⟩
    · exact hsame
  next settings => exact absurd rfl (h settings)
  · exact hsame

/-- The fields of the session metadata in a row. -/
def rowSource (metadata : ThreadMetadata K) : Text × Option K.ThreadSource × Option Text × Option Text × Option Text :=
  (metadata.source, metadata.threadSource, metadata.agentNickname, metadata.agentRole, metadata.agentPath)

/-- A record that leaves what the session metadata says. -/
structure Leaves (metadata rebuilt : ThreadMetadata K) : Prop where
  id : rebuilt.id = metadata.id
  source : rowSource rebuilt = rowSource metadata
  cliVersion : rebuilt.cliVersion = metadata.cliVersion
  cwd : metadata.cwd ≠ [] → rebuilt.cwd = metadata.cwd
  modelProvider : rebuilt.modelProvider = metadata.modelProvider

theorem leaves_of_withMessages {metadata rebuilt : ThreadMetadata K} (h : ∃ title preview firstUserMessage tokensUsed,
    rebuilt = withMessages metadata title preview firstUserMessage tokensUsed) : Leaves metadata rebuilt := by
  obtain ⟨title, preview, firstUserMessage, tokensUsed, rfl⟩ := h
  exact ⟨rfl, rfl, rfl, fun _ => rfl, rfl⟩

/-- What a record does to a row: it is the thread's session metadata or a snapshot of the settings, or leaves what
they say. -/
theorem rebuildItem_cases (metadata : ThreadMetadata K) (item : RolloutItem K) :
    (∃ line, item = .sessionMeta line ∧ line.id = metadata.id) ∨
      (∃ settings, item = .eventMsg (.threadSettingsApplied settings)) ∨
      (ownMeta metadata.id item = none ∧ cwdWritten metadata.id item = none ∧ modelProviderWritten metadata.id item = none ∧
        Leaves metadata (rebuildItem codecs.toCodecs metadata item)) := by
  have hrefl : Leaves metadata metadata := ⟨rfl, rfl, rfl, fun _ => rfl, rfl⟩
  cases item with
  | sessionMeta line =>
    by_cases hid : line.id = metadata.id
    · exact .inl ⟨line, rfl, hid⟩
    · have hnone : ownMeta metadata.id (.sessionMeta line) = none := Option.filter_some_neg (by simpa using hid)
      refine .inr (.inr ⟨hnone, ?_, ?_, ?_⟩)
      · exact congrArg (fun own => own.bind fun line : SessionMetaLine K => nonEmpty line.cwd) hnone
      · exact congrArg (fun own => own.bind fun line : SessionMetaLine K => line.modelProvider) hnone
      · rw [rebuildItem, applySessionMetaFromItem, if_pos (Ne.symm hid)]
        exact hrefl
  | turnContext turnCtx => exact .inr (.inr ⟨rfl, rfl, rfl, rfl, rfl, rfl, fun h => if_neg h, rfl⟩)
  | eventMsg event =>
    by_cases hsettings : ∃ settings, event = .threadSettingsApplied settings
    · obtain ⟨settings, rfl⟩ := hsettings
      exact .inr (.inl ⟨settings, rfl⟩)
    · have hne : ∀ settings, event ≠ .threadSettingsApplied settings := fun settings h => hsettings ⟨settings, h⟩
      refine .inr (.inr ⟨rfl, ?_, ?_, leaves_of_withMessages (applyEventMsg_eq metadata event hne)⟩)
      · cases event <;> first | rfl | exact absurd rfl (hne _)
      · cases event <;> first | rfl | exact absurd rfl (hne _)
  | responseItem => exact .inr (.inr ⟨rfl, rfl, rfl, hrefl⟩)
  | interAgentCommunication => exact .inr (.inr ⟨rfl, rfl, rfl, hrefl⟩)
  | interAgentCommunicationMetadata => exact .inr (.inr ⟨rfl, rfl, rfl, hrefl⟩)
  | compacted => exact .inr (.inr ⟨rfl, rfl, rfl, hrefl⟩)
  | worldState => exact .inr (.inr ⟨rfl, rfl, rfl, hrefl⟩)

/-- The default provider of a row that has none. -/
def normal (codecs : Extraction K) (metadata : ThreadMetadata K) : ThreadMetadata K :=
  { metadata with modelProvider := withDefault codecs metadata.modelProvider }

theorem applyRolloutItem_normal (item : RolloutItem K) :
    applyRolloutItem codecs.toCodecs codecs.defaultProvider metadata item =
      normal codecs (rebuildItem codecs.toCodecs metadata item) := by
  have hif : ∀ rebuilt : ThreadMetadata K,
      (if rebuilt.modelProvider = [] then { rebuilt with modelProvider := codecs.defaultProvider } else rebuilt) =
        normal codecs rebuilt := by
    intro rebuilt
    rw [normal, withDefault]
    split <;> rfl
  cases item <;> exact hif _

theorem withDefault_withDefault (provider : Text) :
    withDefault codecs (withDefault codecs provider) = withDefault codecs provider := by
  by_cases h : provider = []
  · by_cases hdefault : codecs.defaultProvider = [] <;> simp [withDefault, h, hdefault]
  · simp [withDefault, h]

/-- A row of the thread whose first session metadata has been applied. -/
structure Begun (codecs : Extraction K) (first : SessionMetaLine K) (metadata : ThreadMetadata K) : Prop where
  id : metadata.id = first.id
  cwd : first.cwd ≠ [] → metadata.cwd ≠ []
  modelProvider : withDefault codecs metadata.modelProvider = metadata.modelProvider

theorem ownMeta_sessionMeta {id : Text} (h : line.id = id) : ownMeta id (.sessionMeta line) = some line :=
  Option.filter_some_pos (by simpa using h)

theorem rebuildItem_sessionMeta {metadata : ThreadMetadata K} {line : SessionMetaLine K} (h : line.id = metadata.id) :
    rowSource (rebuildItem codecs.toCodecs metadata (.sessionMeta line)) = sourceFields codecs line ∧
      (rebuildItem codecs.toCodecs metadata (.sessionMeta line)).cliVersion =
        (nonEmpty line.cliVersion).getD metadata.cliVersion ∧
      (rebuildItem codecs.toCodecs metadata (.sessionMeta line)).cwd = (nonEmpty line.cwd).getD metadata.cwd ∧
      (rebuildItem codecs.toCodecs metadata (.sessionMeta line)).modelProvider = line.modelProvider.getD metadata.modelProvider ∧
      (rebuildItem codecs.toCodecs metadata (.sessionMeta line)).id = metadata.id := by
  have hid : ¬ metadata.id ≠ line.id := not_not.2 h.symm
  rw [rebuildItem, applySessionMetaFromItem, if_neg hid]
  refine ⟨rfl, ?_, ?_, rfl, rfl⟩
  · by_cases hempty : line.cliVersion = [] <;> simp [nonEmpty, hempty]
  · by_cases hempty : line.cwd = [] <;> simp [nonEmpty, hempty]

theorem nonEmpty_ne_nil {text v : Text} (h : nonEmpty text = some v) : v ≠ [] := by
  rw [nonEmpty] at h
  split at h
  next => cases h
  next hne =>
    obtain rfl := Option.some.inj h
    exact hne

theorem cwdWritten_ne_nil {id cwd : Text} {item : RolloutItem K} (h : cwdWritten id item = some cwd) : cwd ≠ [] := by
  have hmeta : (ownMeta id item).bind (fun line => nonEmpty line.cwd) = some cwd → cwd ≠ [] := by
    intro h
    obtain ⟨line, -, hcwd⟩ := Option.bind_eq_some_iff.1 h
    exact nonEmpty_ne_nil hcwd
  unfold cwdWritten at h
  split at h
  next settings =>
    obtain rfl := Option.some.inj h
    exact settings.cwd.nonempty
  next => exact hmeta h

/-- One record more, by what it writes. -/
structure Writes (codecs : Extraction K) (first : SessionMetaLine K) (item : RolloutItem K) (metadata next : ThreadMetadata K) :
    Prop where
  id : next.id = metadata.id
  source : rowSource next = ((ownMeta first.id item).map (sourceFields codecs)).getD (rowSource metadata)
  cliVersion : next.cliVersion = (cliVersionWritten first.id item).getD metadata.cliVersion
  cwd : metadata.cwd ≠ [] → next.cwd = (cwdWritten first.id item).getD metadata.cwd
  modelProvider : next.modelProvider = ((modelProviderWritten first.id item).map (withDefault codecs)).getD metadata.modelProvider

theorem applyRolloutItem_writes {metadata} (hid : metadata.id = first.id)
    (hprovider : withDefault codecs metadata.modelProvider = metadata.modelProvider) (item : RolloutItem K) :
    Writes codecs first item metadata (applyRolloutItem codecs.toCodecs codecs.defaultProvider metadata item) := by
  rw [applyRolloutItem_normal]
  rcases @rebuildItem_cases K codecs metadata item with ⟨line, rfl, hline⟩ | ⟨settings, rfl⟩ | ⟨hown, hcwd, hmodel, hleaves⟩
  · obtain ⟨hsource, hcli, hcwd, hmodel, hsame⟩ := @rebuildItem_sessionMeta K codecs _ _ hline
    have hown : ownMeta first.id (.sessionMeta line) = some line := ownMeta_sessionMeta (hline.trans hid)
    refine ⟨hsame, ?_, ?_, fun _ => ?_, ?_⟩
    · rw [hown]
      exact hsource
    · rw [cliVersionWritten, hown]
      exact hcli
    · refine hcwd.trans ?_
      exact congrArg (fun own => (own.bind fun line : SessionMetaLine K => nonEmpty line.cwd).getD metadata.cwd) hown.symm
    · have hwritten : modelProviderWritten first.id (.sessionMeta line) = line.modelProvider :=
        congrArg (fun own => own.bind fun line : SessionMetaLine K => line.modelProvider) hown
      rw [normal, hmodel, hwritten]
      cases line.modelProvider with
      | none => exact hprovider
      | some provider => rfl
  · exact ⟨rfl, rfl, rfl, fun _ => rfl, rfl⟩
  · rw [hid] at hown hcwd hmodel
    refine ⟨hleaves.id, ?_, ?_, fun hne => ?_, ?_⟩
    · rw [hown]
      exact hleaves.source
    · rw [cliVersionWritten, hown]
      exact hleaves.cliVersion
    · rw [hcwd]
      exact hleaves.cwd hne
    · rw [hmodel, normal, hleaves.modelProvider]
      exact hprovider

theorem begun_applyRolloutItem {metadata : ThreadMetadata K} (h : Begun codecs first metadata)
    (item : RolloutItem K) : Begun codecs first (applyRolloutItem codecs.toCodecs codecs.defaultProvider metadata item) := by
  have hwrites := applyRolloutItem_writes h.id h.modelProvider item
  refine ⟨hwrites.id.trans h.id, fun hne => ?_, ?_⟩
  · rw [hwrites.cwd (h.cwd hne)]
    cases hcwd : cwdWritten first.id item with
    | none => exact h.cwd hne
    | some cwd => exact cwdWritten_ne_nil hcwd
  · rw [applyRolloutItem_normal]
    exact withDefault_withDefault _

/-! ## All records -/

/-- **A row says what was written last.** -/
theorem foldl_reads {metadata} (h : Begun codecs first metadata) (later : List (RolloutItem K)) :
    let row := later.foldl (applyRolloutItem codecs.toCodecs codecs.defaultProvider) metadata
    Begun codecs first row ∧
      rowSource row = ((last (ownMeta first.id) later).map (sourceFields codecs)).getD (rowSource metadata) ∧
      row.cliVersion = (last (cliVersionWritten first.id) later).getD metadata.cliVersion ∧
      (first.cwd ≠ [] → row.cwd = (last (cwdWritten first.id) later).getD metadata.cwd) ∧
      row.modelProvider =
        ((last (modelProviderWritten first.id) later).map (withDefault codecs)).getD metadata.modelProvider := by
  have hstep : ∀ (s : ThreadMetadata K) item, Begun codecs first s →
      Begun codecs first (applyRolloutItem codecs.toCodecs codecs.defaultProvider s item) :=
    fun s item hs => begun_applyRolloutItem hs item
  refine ⟨?_, ?_, ?_, fun hne => ?_, ?_⟩
  · exact Runs.run_invariant (fun s item hs => hstep s item hs) h later
  · rw [← last_map]
    exact read_foldl hstep (fun s item hs => (applyRolloutItem_writes hs.id hs.modelProvider item).source) h later
  · exact read_foldl hstep (fun s item hs => (applyRolloutItem_writes hs.id hs.modelProvider item).cliVersion) h later
  · exact read_foldl hstep (fun s item hs => (applyRolloutItem_writes hs.id hs.modelProvider item).cwd (hs.cwd hne)) h later
  · rw [← last_map]
    exact read_foldl hstep (fun s item hs => (applyRolloutItem_writes hs.id hs.modelProvider item).modelProvider) h later

/-! ## The copy -/

def withGitOf (metadata other : ThreadMetadata K) : ThreadMetadata K :=
  { metadata with
    gitSha := other.gitSha
    gitBranch := other.gitBranch
    gitOriginUrl := other.gitOriginUrl }

/-- Session metadata writes the fields it has, and no others. -/
theorem withGitOf_eq_iff {row} (hid : line.id = row.id) :
    withGitOf (applyRolloutItem codecs.toCodecs codecs.defaultProvider row (.sessionMeta line)) row = row ↔
      sourceFields codecs line = rowSource row ∧ (nonEmpty line.cliVersion).getD row.cliVersion = row.cliVersion ∧
        (nonEmpty line.cwd).getD row.cwd = row.cwd ∧
        withDefault codecs (line.modelProvider.getD row.modelProvider) = row.modelProvider := by
  obtain ⟨hsource, hcli, hcwd, hmodel, -⟩ := @rebuildItem_sessionMeta K codecs _ _ hid
  rw [applyRolloutItem_normal]
  constructor
  · intro h
    have hrowSource := congrArg rowSource h
    have hrowCli := congrArg ThreadMetadata.cliVersion h
    have hrowCwd := congrArg ThreadMetadata.cwd h
    have hrowModel := congrArg ThreadMetadata.modelProvider h
    refine ⟨hsource.symm.trans hrowSource, hcli.symm.trans hrowCli, hcwd.symm.trans hrowCwd, ?_⟩
    rw [← hmodel]
    exact hrowModel
  · rintro ⟨hsource', hcli', hcwd', hmodel'⟩
    rw [rebuildItem, applySessionMetaFromItem, if_neg (not_not.2 hid.symm)] at hcli hcwd ⊢
    simp only [sourceFields, rowSource, Prod.mk.injEq] at hsource'
    obtain ⟨h1, h2, h3, h4, h5⟩ := hsource'
    simp only [withGitOf, normal, hcli, hcwd, hmodel', hcli', hcwd', h1, h2, h3, h4, h5]

theorem getD_eq_self_iff {α : Type*} {o : Option α} {a : α} : o.getD a = a ↔ ∀ v ∈ o, v = a := by
  cases o <;> simp

theorem nonEmpty_getD_eq_iff {text v : Text} : (nonEmpty text).getD v = v ↔ (text ≠ [] → text = v) := by
  by_cases h : text = [] <;> simp [nonEmpty, h]

/-- Applying what the first session metadata says once more changes no row in which it still stands, and every
other. -/
theorem copy_eq_iff {start : ThreadMetadata K} (hid : start.id = first.id)
    (hline : line.id = first.id) (hsource : sourceFields codecs line = sourceFields codecs first)
    (hcli : line.cliVersion = first.cliVersion) (hcwd : line.cwd = first.cwd) (hmodel : line.modelProvider = first.modelProvider)
    (later : List (RolloutItem K)) :
    let row := (.sessionMeta first :: later).foldl (applyRolloutItem codecs.toCodecs codecs.defaultProvider) start
    withGitOf (applyRolloutItem codecs.toCodecs codecs.defaultProvider row (.sessionMeta line)) row = row ↔
      FirstMetaStands codecs first later := by
  intro row
  obtain ⟨hsource₀, hcli₀, hcwd₀, hmodel₀, hid₀⟩ := @rebuildItem_sessionMeta K codecs _ _ hid.symm
  have hbase : Begun codecs first (normal codecs (rebuildItem codecs.toCodecs start (.sessionMeta first))) := by
    refine ⟨hid₀.trans hid, fun hne => ?_, withDefault_withDefault _⟩
    rw [normal, hcwd₀, nonEmpty, if_neg hne]
    exact hne
  obtain ⟨hbegun, hrowSource, hrowCli, hrowCwd, hrowModel⟩ := foldl_reads hbase later
  have hrow : row = later.foldl (applyRolloutItem codecs.toCodecs codecs.defaultProvider)
      (normal codecs (rebuildItem codecs.toCodecs start (.sessionMeta first))) := by
    rw [← applyRolloutItem_normal]
    rfl
  rw [← hrow] at hbegun hrowSource hrowCli hrowCwd hrowModel
  rw [withGitOf_eq_iff (hline.trans hbegun.id.symm), hsource, hcli, hcwd, hmodel]
  -- each field on its own
  have h1 : sourceFields codecs first = rowSource row ↔
      ∀ line ∈ last (ownMeta first.id) later, sourceFields codecs line = sourceFields codecs first := by
    rw [hrowSource, show rowSource (normal codecs (rebuildItem codecs.toCodecs start (.sessionMeta first))) =
      sourceFields codecs first from hsource₀, eq_comm, getD_eq_self_iff, Option.forall_mem_map]
  have h2 : (nonEmpty first.cliVersion).getD row.cliVersion = row.cliVersion ↔
      (first.cliVersion ≠ [] → ∀ v ∈ last (cliVersionWritten first.id) later, v = first.cliVersion) := by
    rw [nonEmpty_getD_eq_iff]
    refine imp_congr_right fun hne => ?_
    rw [hrowCli, show (normal codecs (rebuildItem codecs.toCodecs start (.sessionMeta first))).cliVersion = first.cliVersion by
      rw [normal, hcli₀, nonEmpty, if_neg hne]; rfl, eq_comm, getD_eq_self_iff]
  have h3 : (nonEmpty first.cwd).getD row.cwd = row.cwd ↔
      (first.cwd ≠ [] → ∀ v ∈ last (cwdWritten first.id) later, v = first.cwd) := by
    rw [nonEmpty_getD_eq_iff]
    refine imp_congr_right fun hne => ?_
    rw [hrowCwd hne, show (normal codecs (rebuildItem codecs.toCodecs start (.sessionMeta first))).cwd = first.cwd by
      rw [normal, hcwd₀, nonEmpty, if_neg hne]; rfl, eq_comm, getD_eq_self_iff]
  have h4 : withDefault codecs (first.modelProvider.getD row.modelProvider) = row.modelProvider ↔
      ∀ provider ∈ first.modelProvider, ∀ v ∈ last (modelProviderWritten first.id) later,
        withDefault codecs v = withDefault codecs provider := by
    cases hprovider : first.modelProvider with
    | none => simpa using hbegun.modelProvider
    | some provider =>
      rw [hrowModel, show (normal codecs (rebuildItem codecs.toCodecs start (.sessionMeta first))).modelProvider =
        withDefault codecs provider by rw [normal, hmodel₀, hprovider]; rfl, Option.getD_some, eq_comm, getD_eq_self_iff,
        Option.forall_mem_map]
      simp
  rw [h1, h2, h3, h4]
  exact ⟨fun h => ⟨h.1, h.2.1, h.2.2.1, h.2.2.2⟩, fun h => ⟨h.source, h.cliVersion, h.cwd, h.modelProvider⟩⟩

/-! ## Explicit updates -/

theorem applyRolloutItem_id (item : RolloutItem K) :
    (applyRolloutItem codecs.toCodecs codecs.defaultProvider metadata item).id = metadata.id := by
  rw [applyRolloutItem_normal]
  rcases @rebuildItem_cases K codecs metadata item with ⟨line, rfl, hline⟩ | ⟨settings, rfl⟩ | ⟨-, -, -, hleaves⟩
  · exact (rebuildItem_sessionMeta hline).2.2.2.2
  · rfl
  · exact hleaves.id

theorem foldl_id (items : List (RolloutItem K)) :
    (items.foldl (applyRolloutItem codecs.toCodecs codecs.defaultProvider) metadata).id = metadata.id :=
  Runs.run_invariant (P := fun s : ThreadMetadata K => s.id = metadata.id)
    (fun s item hs => (applyRolloutItem_id s item).trans hs) rfl items

theorem foldl_modelProvider (h : items ≠ []) :
    withDefault codecs (items.foldl (applyRolloutItem codecs.toCodecs codecs.defaultProvider) metadata).modelProvider =
      (items.foldl (applyRolloutItem codecs.toCodecs codecs.defaultProvider) metadata).modelProvider := by
  obtain ⟨items, item, rfl⟩ := (List.eq_nil_or_concat' items).resolve_left h
  rw [List.foldl_append, List.foldl_cons, List.foldl_nil, applyRolloutItem_normal]
  exact withDefault_withDefault _

/-- Another thread's session metadata says nothing of a row. -/
theorem applyRolloutItem_foreign {metadata} (h : metadata.id ≠ line.id)
    (hprovider : withDefault codecs metadata.modelProvider = metadata.modelProvider) :
    applyRolloutItem codecs.toCodecs codecs.defaultProvider metadata (.sessionMeta line) = metadata := by
  rw [applyRolloutItem_normal, show rebuildItem codecs.toCodecs metadata (.sessionMeta line) = metadata from if_pos h, normal,
    hprovider]

theorem withGitOf_of_git_none (h : line.git = none) (row : ThreadMetadata K) :
    withGitOf (applyRolloutItem codecs.toCodecs codecs.defaultProvider row (.sessionMeta line)) row =
      applyRolloutItem codecs.toCodecs codecs.defaultProvider row (.sessionMeta line) := by
  rw [applyRolloutItem_normal]
  by_cases hid : row.id = line.id
  · rw [show rebuildItem codecs.toCodecs row (.sessionMeta line) = _ from if_neg (not_not.2 hid)]
    simp only [h]
    rfl
  · rw [show rebuildItem codecs.toCodecs row (.sessionMeta line) = row from if_pos hid]
    rfl

theorem extractMemoryMode_eq (items : List (RolloutItem K)) : extractMemoryMode items = last memoryModeOf items :=
  findSome?_reverse items

theorem extract_copy {rollout : Rollout K} {before : ExtractionOutcome K} {first line : SessionMetaLine K}
    {later : List (RolloutItem K)} (hfirst : afterFirstMeta rollout.items = some (first, later))
    (hbefore : extractMetadataFromRollout codecs rollout = .ok before) (hline : line.id = first.id)
    (hsource : sourceFields codecs line = sourceFields codecs first) (hcli : line.cliVersion = first.cliVersion)
    (hcwd : line.cwd = first.cwd) (hmodel : line.modelProvider = first.modelProvider) :
    ∃ after, extractMetadataFromRollout codecs { rollout with items := rollout.items ++ [.sessionMeta line] } = .ok after ∧
      after.memoryMode = line.memoryMode.or (last memoryModeOf rollout.items) ∧
      before.memoryMode = last memoryModeOf rollout.items ∧
      (line.git = none → withGitOf after.metadata before.metadata = after.metadata) ∧
      (withGitOf after.metadata before.metadata = before.metadata ↔ CopyStands codecs rollout) := by
  obtain ⟨earlier, hitems, hearlier⟩ := afterFirstMeta_split hfirst
  have hne : rollout.items ≠ [] := by simp [hitems]
  have hfind : ∀ more, (rollout.items ++ more).findSome? sessionMetaOf = some first := by
    intro more
    rw [hitems, List.append_assoc, List.cons_append]
    exact findSome?_sessionMetaOf first hearlier
  have hbuilder : builderFromItems codecs { rollout with items := rollout.items ++ [.sessionMeta line] } =
      builderFromItems codecs rollout := by
    have hnil := hfind []
    rw [List.append_nil] at hnil
    rw [builderFromItems, builderFromItems, hfind, hnil]
    rfl
  rw [extractMetadataFromRollout, if_neg (by simpa using hne)] at hbefore
  cases hbuilt : builderFromItems codecs rollout with
  | none =>
    rw [hbuilt] at hbefore
    cases hbefore
  | some builder =>
    rw [hbuilt] at hbefore
    obtain rfl := (Except.ok.inj hbefore).symm
    refine ⟨⟨(rollout.items ++ [RolloutItem.sessionMeta line]).foldl (applyRolloutItem codecs.toCodecs codecs.defaultProvider)
      (builder.build codecs), extractMemoryMode (rollout.items ++ [.sessionMeta line])⟩, ?_, ?_, extractMemoryMode_eq _, ?_, ?_⟩
    · rw [extractMetadataFromRollout, if_neg (by simp), hbuilder, hbuilt]
    · rw [extractMemoryMode_eq]
      exact last_concat _ _
    · intro hgit
      simp only [List.foldl_append, List.foldl_cons, List.foldl_nil]
      exact withGitOf_of_git_none hgit _
    · simp only [List.foldl_append, List.foldl_cons, List.foldl_nil]
      by_cases hid : builder.id = first.id
      · have hcanonical : CopyStands codecs rollout ↔ FirstMetaStands codecs first later := by
          constructor
          · intro h
            exact h first later hfirst (by rw [hbuilt, Option.map_some, hid])
          · intro h first' later' hfirst' _
            obtain ⟨rfl, rfl⟩ := Prod.mk.inj (Option.some.inj (hfirst.symm.trans hfirst'))
            exact h
        rw [hcanonical, hitems, List.foldl_append]
        exact copy_eq_iff ((foldl_id (builder.build codecs) earlier).trans hid) hline hsource hcli hcwd hmodel later
      · -- the row is another thread's, which the copy is not for
        refine iff_of_true ?_ ?_
        · rw [applyRolloutItem_foreign _ (foldl_modelProvider _ hne)]
          · rfl
          · rw [foldl_id, hline]
            exact hid
        · intro first' later' hfirst' hcanonical
          obtain ⟨rfl, rfl⟩ := Prod.mk.inj (Option.some.inj (hfirst.symm.trans hfirst'))
          rw [hbuilt] at hcanonical
          exact absurd (Option.some.inj hcanonical) hid

theorem appendSessionMeta_ok {operation threadId : Text} {rollout rollout'}
    {update : SessionMetaLine K → SessionMetaLine K} (h : appendSessionMeta operation rollout threadId update = .ok rollout') :
    ∃ first later, afterFirstMeta rollout.items = some (first, later) ∧ first.id = threadId ∧
      rollout' = { rollout with items := rollout.items ++ [.sessionMeta (update first)] } := by
  rw [appendSessionMeta] at h
  split at h
  next => cases h
  next line hread =>
    split at h
    next => cases h
    next hid =>
      obtain ⟨later, hfirst⟩ := afterFirstMeta_of_read hread
      exact ⟨line, later, hfirst, not_not.1 hid, (Except.ok.inj h).symm⟩

/-- **When explicit updates change only their field**: exactly when what the first session metadata says still stands,
and for the git fields the memory mode it repeats is the last one recorded. -/
theorem explicitUpdates_iff {rollout : Rollout K} {threadId : Text} {before : ExtractionOutcome K}
    (hbefore : extractMetadataFromRollout codecs rollout = .ok before) :
    (∀ memoryMode rollout', applyThreadMemoryMode rollout threadId memoryMode = .ok rollout' →
      ∃ after, extractMetadataFromRollout codecs rollout' = .ok after ∧ after.memoryMode = some (memoryModeAsStr memoryMode) ∧
        (after.metadata = before.metadata ↔ CopyStands codecs rollout)) ∧
    ∀ sha branch originUrl memoryMode rollout',
      applyThreadGitInfoToRollout rollout threadId sha branch originUrl memoryMode = .ok rollout' →
        ∃ after, extractMetadataFromRollout codecs rollout' = .ok after ∧
          (withGitOf after.metadata before.metadata = before.metadata ∧ after.memoryMode = before.memoryMode ↔
            CopyStands codecs rollout ∧ ∀ mode ∈ memoryMode, last memoryModeOf rollout.items = some mode) := by
  constructor
  · intro memoryMode rollout' h
    obtain ⟨first, later, hfirst, -, rfl⟩ := appendSessionMeta_ok h
    obtain ⟨after, hafter, hmode, -, hgit, hiff⟩ := @extract_copy K codecs rollout before first
      { first with git := none, memoryMode := some (memoryModeAsStr memoryMode) } later hfirst hbefore rfl rfl rfl rfl rfl
    refine ⟨after, hafter, hmode, ?_⟩
    rw [← hiff, hgit rfl]
  · intro sha branch originUrl memoryMode rollout' h
    obtain ⟨first, later, hfirst, -, rfl⟩ := appendSessionMeta_ok h
    obtain ⟨after, hafter, hmode, hmode', -, hiff⟩ := @extract_copy K codecs rollout before first
      { first with git := some { commitHash := sha, branch, repositoryUrl := originUrl }, memoryMode } later
      hfirst hbefore rfl rfl rfl rfl rfl
    refine ⟨after, hafter, and_congr hiff ?_⟩
    rw [hmode, hmode']
    cases memoryMode with
    | none => simp
    | some mode => simp [eq_comm]

end

/-! ## A thread that has moved -/

def movedMeta : SessionMetaLine plainKinds where
  id := "t".toList
  timestamp := "2025-01-01T00:00:00Z".toList
  cwd := "/first".toList
  cliVersion := "1".toList
  source := ()
  threadSource := none
  agentNickname := none
  agentRole := none
  agentPath := none
  modelProvider := some "p".toList
  memoryMode := none
  git := none

def plainExtraction : Extraction plainKinds where
  toCodecs := plainCodecs
  parseTimestampToUtc timestamp := if timestamp = "2025-01-01T00:00:00Z".toList then some 1735689600 else none
  sourceAgentPath _ := none
  defaultSource := ()
  readOnlyPolicy := "read-only".toList
  onRequest := ()
  defaultProvider := "p".toList

/-- A thread whose directory and provider are changed after its start. -/
def movedRollout : Rollout plainKinds where
  path := "rollout-2025-01-01T00-00-00-t.jsonl".toList
  fileNameId := some "t".toList
  historyMode := .legacy
  items := [.sessionMeta movedMeta, .eventMsg (.threadSettingsApplied
    { model := "m".toList, modelProviderId := "q".toList, approvalPolicy := (), permissionProfile := ()
      cwd := ⟨"/second".toList, by decide⟩, reasoningEffort := none })]

def movedOutcome (cwd modelProvider : Text) : ExtractionOutcome plainKinds where
  memoryMode := none
  metadata :=
    { plainRow modelProvider with
      rolloutPath := movedRollout.path, model := some "m".toList, cwd, cliVersion := "1".toList
      sandboxPolicy := "read-only".toList, approvalMode := "never".toList }

theorem explicitUpdates_iff_moved :
    ∃ rollout' after, applyThreadMemoryMode movedRollout "t".toList .disabled = .ok rollout' ∧
      extractMetadataFromRollout plainExtraction rollout' = .ok after ∧
      (after.metadata = (movedOutcome "/second".toList "q".toList).metadata ↔ CopyStands plainExtraction movedRollout) := by
  have hbefore : extractMetadataFromRollout plainExtraction movedRollout = .ok (movedOutcome "/second".toList "q".toList) := rfl
  obtain ⟨after, hafter, -, hiff⟩ := (@explicitUpdates_iff _ _ _ "t".toList _ hbefore).1 .disabled _ rfl
  exact ⟨_, after, rfl, hafter, hiff⟩

/-- A memory mode that takes the thread back to where it began. -/
theorem not_onlyMemoryMode_moved :
    extractMetadataFromRollout plainExtraction movedRollout = .ok (movedOutcome "/second".toList "q".toList) ∧
      (applyThreadMemoryMode movedRollout "t".toList .disabled).bind (extractMetadataFromRollout plainExtraction) =
        .ok { movedOutcome "/first".toList "p".toList with memoryMode := some "disabled".toList } :=
  ⟨rfl, rfl⟩

end Codex.Metadata
