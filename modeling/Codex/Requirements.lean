/-
Requirements in layers. What a layer says is merged as the configuration is, the
higher layer's value standing, except for what restricts: the rules, the hooks and
the patterns that may not be read are taken out of the layer's TOML (with the
tables this empties) and gathered apart, the highest layer first.

Source: config/src/requirements_layers/, config/src/config_requirements.rs,
config/src/hook_config.rs.
-/
import Codex.ConfigMerge

namespace Codex.Requirements

open ConfigMerge (TomlValue Path mergeTomlValues)
open NetworkProxy (Libraries toAsciiLowercase trimEndDots)
open OrderedTables
open Text (trim)

/-! ## TOML -/

/-- No table has a key twice, which `toml::map::Map` does not allow. -/
inductive WellFormed : TomlValue → Prop where
  | scalar (s : ConfigMerge.TomlScalar) : WellFormed (.scalar s)
  | array (items : List TomlValue) (values : ∀ item ∈ items, WellFormed item) : WellFormed (.array items)
  | table (entries : List (Text × TomlValue)) (keys : (entries.map Prod.fst).Nodup)
      (values : ∀ key value, (key, value) ∈ entries → WellFormed value) : WellFormed (.table entries)

/-- A document is a table. -/
structure Toml where
  entries : List (Text × TomlValue)
  wellFormed : WellFormed (.table entries)

def Toml.value (toml : Toml) : TomlValue := .table toml.entries

/-! ## Sources -/

inductive RequirementSource where
  | unknown
  | mdmManagedPreferences (domain key : Text)
  | composite (sources : List RequirementSource)
  | enterpriseManaged (id name : Text)
  | systemRequirementsToml (file : Text)
  | legacyManagedConfigTomlFromFile (file : Text)
  | legacyManagedConfigTomlFromMdm

namespace RequirementSource

mutual

def beq : RequirementSource → RequirementSource → Bool
  | .unknown, .unknown => true
  | .mdmManagedPreferences domain key, .mdmManagedPreferences domain' key' => domain == domain' && key == key'
  | .composite sources, .composite sources' => beqAll sources sources'
  | .enterpriseManaged id name, .enterpriseManaged id' name' => id == id' && name == name'
  | .systemRequirementsToml file, .systemRequirementsToml file' => file == file'
  | .legacyManagedConfigTomlFromFile file, .legacyManagedConfigTomlFromFile file' => file == file'
  | .legacyManagedConfigTomlFromMdm, .legacyManagedConfigTomlFromMdm => true
  | _, _ => false

def beqAll : List RequirementSource → List RequirementSource → Bool
  | [], [] => true
  | source :: sources, source' :: sources' => beq source source' && beqAll sources sources'
  | _, _ => false

end

instance instBEqRequirementSource : BEq RequirementSource := ⟨beq⟩

mutual

def appendToComposite : (source : RequirementSource) → (flattened : List RequirementSource) → List RequirementSource
  | .composite sources, flattened => appendAllToComposite sources flattened
  | source, flattened => if flattened.contains source then flattened else flattened ++ [source]

def appendAllToComposite : (sources flattened : List RequirementSource) → List RequirementSource
  | [], flattened => flattened
  | source :: sources, flattened => appendAllToComposite sources (appendToComposite source flattened)

end

/-- `RequirementSource::composite` -/
def compositeOf (sources : List RequirementSource) : RequirementSource :=
  match appendAllToComposite sources [] with
  | [] => .unknown
  | [source] => source
  | flattened => .composite flattened

end RequirementSource

structure Sourced (α : Type) where
  value : α
  source : RequirementSource

def mergeOutputSource (existing incoming : RequirementSource) : RequirementSource :=
  if existing != incoming then .compositeOf [existing, incoming] else existing

/-! ## Requirements -/

/-- Types that the code only hands on: an entry of `prefix_rules`, a group of hooks,
a permission profile, and the value of any other field of the requirements. -/
structure Kinds where
  PrefixRule : Type
  MatcherGroup : Type
  Profile : Type
  Field : Type
  /-- What `is_empty` takes for nothing. -/
  fieldIsEmpty : Field → Bool

variable (K : Kinds)

structure RequirementsExecPolicyToml where
  prefixRules : List K.PrefixRule

structure HookEventsToml where
  preToolUse : List K.MatcherGroup
  permissionRequest : List K.MatcherGroup
  postToolUse : List K.MatcherGroup
  preCompact : List K.MatcherGroup
  postCompact : List K.MatcherGroup
  sessionStart : List K.MatcherGroup
  sessionEnd : List K.MatcherGroup
  userPromptSubmit : List K.MatcherGroup
  subagentStart : List K.MatcherGroup
  subagentStop : List K.MatcherGroup
  stop : List K.MatcherGroup

/-- `managed_dir` and `windows_managed_dir` are paths as they are written. -/
structure ManagedHooksRequirementsToml where
  managedDir : Option Text
  windowsManagedDir : Option Text
  hooks : HookEventsToml K

abbrev FilesystemDenyReadPattern := Text

structure FilesystemRequirementsToml where
  denyRead : Option (List FilesystemDenyReadPattern) := none

structure PermissionsRequirementsToml where
  filesystem : Option FilesystemRequirementsToml
  profiles : List (Text × K.Profile)

inductive SandboxModeRequirement where
  | readOnly
  | workspaceWrite
  | dangerFullAccess
  | externalSandbox

structure RemoteSandboxConfigToml where
  hostnamePatterns : List Text
  allowedSandboxModes : List SandboxModeRequirement

/-- The fields that are read here by name, and those that are set of the others, each with
the names it may have in TOML. -/
structure ConfigRequirementsToml where
  sqliteHome : Option Text
  logDir : Option Text
  modelCatalogJson : Option Text
  allowedSandboxModes : Option (List SandboxModeRequirement)
  remoteSandboxConfig : Option (List RemoteSandboxConfigToml)
  hooks : Option (ManagedHooksRequirementsToml K)
  rules : Option (RequirementsExecPolicyToml K)
  permissions : Option (PermissionsRequirementsToml K)
  guardianPolicyConfig : Option Text
  others : List (List Text × K.Field)

structure ConfigRequirementsWithSources where
  sqliteHome : Option (Sourced Text)
  logDir : Option (Sourced Text)
  modelCatalogJson : Option (Sourced Text)
  allowedSandboxModes : Option (Sourced (List SandboxModeRequirement))
  hooks : Option (Sourced (ManagedHooksRequirementsToml K))
  rules : Option (Sourced (RequirementsExecPolicyToml K))
  permissions : Option (Sourced (PermissionsRequirementsToml K))
  guardianPolicyConfig : Option (Sourced Text)
  others : List (List Text × Sourced K.Field)

/-- The TOML library, serde and the wildcards of host names. Paths are resolved against
the directory of the layer, where it has one. -/
structure Codec where
  parse : Text → Except Text Toml
  fromStr : Option Text → Text → Except Text (ConfigRequirementsToml K)
  tryInto : Option Text → TomlValue → Except Text (ConfigRequirementsToml K)
  wildMatch : (pattern hostname : Text) → Bool

variable {K}

namespace HookEventsToml

def isEmpty (events : HookEventsToml K) : Bool :=
  events.preToolUse.isEmpty && events.permissionRequest.isEmpty && events.postToolUse.isEmpty && events.preCompact.isEmpty &&
    events.postCompact.isEmpty && events.sessionStart.isEmpty && events.sessionEnd.isEmpty &&
    events.userPromptSubmit.isEmpty && events.subagentStart.isEmpty && events.subagentStop.isEmpty && events.stop.isEmpty

/-- `append_hook_events`: also whether that adds any. -/
def append (existing incoming : HookEventsToml K) : Bool × HookEventsToml K :=
  (!incoming.isEmpty,
    { preToolUse := existing.preToolUse ++ incoming.preToolUse
      permissionRequest := existing.permissionRequest ++ incoming.permissionRequest
      postToolUse := existing.postToolUse ++ incoming.postToolUse
      preCompact := existing.preCompact ++ incoming.preCompact
      postCompact := existing.postCompact ++ incoming.postCompact
      sessionStart := existing.sessionStart ++ incoming.sessionStart
      sessionEnd := existing.sessionEnd ++ incoming.sessionEnd
      userPromptSubmit := existing.userPromptSubmit ++ incoming.userPromptSubmit
      subagentStart := existing.subagentStart ++ incoming.subagentStart
      subagentStop := existing.subagentStop ++ incoming.subagentStop
      stop := existing.stop ++ incoming.stop })

end HookEventsToml

def ManagedHooksRequirementsToml.isEmpty (hooks : ManagedHooksRequirementsToml K) : Bool :=
  hooks.managedDir.isNone && hooks.windowsManagedDir.isNone && hooks.hooks.isEmpty

namespace ConfigRequirementsToml

def normalizeHostname (hostname : Text) : Option Text :=
  let hostname := trimEndDots (trim hostname)
  if !hostname.isEmpty then some (toAsciiLowercase hostname) else none

def hostnameMatchesAnyPattern (C : Codec K) (hostname : Text) (patterns : List Text) : Bool :=
  patterns.any fun pattern => (normalizeHostname pattern).any fun pattern => C.wildMatch pattern hostname

def applyRemoteSandboxConfig (C : Codec K) (requirements : ConfigRequirementsToml K) (hostname : Option Text) :
    ConfigRequirementsToml K :=
  match requirements.remoteSandboxConfig, hostname.bind normalizeHostname with
  | some remoteSandboxConfig, some hostname =>
    match remoteSandboxConfig.find? fun config => hostnameMatchesAnyPattern C hostname config.hostnamePatterns with
    | some matchedConfig => { requirements with allowedSandboxModes := some matchedConfig.allowedSandboxModes }
    | none => requirements
  | _, _ => requirements

def isEmpty (requirements : ConfigRequirementsToml K) : Bool :=
  requirements.sqliteHome.isNone && requirements.logDir.isNone && requirements.modelCatalogJson.isNone &&
    requirements.allowedSandboxModes.isNone && requirements.remoteSandboxConfig.isNone &&
    requirements.hooks.all ManagedHooksRequirementsToml.isEmpty && requirements.rules.isNone &&
    requirements.permissions.isNone && (requirements.guardianPolicyConfig.all fun value => (trim value).isEmpty) &&
    requirements.others.all fun field => K.fieldIsEmpty field.2

end ConfigRequirementsToml

def ConfigRequirementsWithSources.intoToml (output : ConfigRequirementsWithSources K) : ConfigRequirementsToml K where
  sqliteHome := output.sqliteHome.map Sourced.value
  logDir := output.logDir.map Sourced.value
  modelCatalogJson := output.modelCatalogJson.map Sourced.value
  allowedSandboxModes := output.allowedSandboxModes.map Sourced.value
  remoteSandboxConfig := none
  hooks := output.hooks.map Sourced.value
  rules := output.rules.map Sourced.value
  permissions := output.permissions.map Sourced.value
  guardianPolicyConfig := output.guardianPolicyConfig.map Sourced.value
  others := output.others.map fun field => (field.1, field.2.value)

/-! ## Errors -/

inductive RequirementsCompositionError where
  | parse (layerSource : RequirementSource) (message : Text)
  | composedParse (message : Text)
  | conflict (field : Text) (existingSource incomingSource : RequirementSource) (message : Text)

abbrev Composition (α : Type) := Except RequirementsCompositionError α

/-! ## A layer -/

inductive RequirementsLayerToml where
  | string (contents : Text)
  | value (v : Toml)

structure RequirementsLayerEntry where
  source : RequirementSource
  toml : RequirementsLayerToml
  baseDir : Option Text

/-- `ComposableRequirementsLayer`, its `domain_fields` in place. -/
structure ComposableRequirementsLayer (K : Kinds) where
  source : RequirementSource
  regularToml : TomlValue
  rules : Option (RequirementsExecPolicyToml K)
  hooks : Option (ManagedHooksRequirementsToml K)
  permissions : Option (PermissionsRequirementsToml K)

def parseLayerToml (C : Codec K) (layer : RequirementsLayerEntry) : Composition Toml :=
  match layer.toml with
  | .string contents => (C.parse contents).mapError (.parse layer.source)
  | .value v => .ok v

def parseLayerRequirements (C : Codec K) (layer : RequirementsLayerEntry) : Composition (ConfigRequirementsToml K) :=
  match layer.toml with
  | .string contents => (C.fromStr layer.baseDir contents).mapError (.parse layer.source)
  | .value v => (C.tryInto layer.baseDir v.value).mapError (.parse layer.source)

def removeTopLevelField (value : TomlValue) (key : Text) : TomlValue :=
  match value with
  | .table table => .table (remove table key)
  | value => value

def insertTopLevelField (value : TomlValue) (key : Text) (field : TomlValue) : TomlValue :=
  match value with
  | .table table => .table (insert table key field)
  | value => value

def materializePath (layerToml : TomlValue) (field : Text × Option Text) : TomlValue :=
  match field.2 with
  | some path => insertTopLevelField layerToml field.1 (.scalar (.string path))
  | none => layerToml

def materializeResolvedPathRequirements (layerToml : TomlValue) (requirements : ConfigRequirementsToml K) : TomlValue :=
  [("sqlite_home".toList, requirements.sqliteHome), ("log_dir".toList, requirements.logDir),
    ("model_catalog_json".toList, requirements.modelCatalogJson)].foldl materializePath layerToml

/-- How serde writes the mode. -/
def SandboxModeRequirement.name : SandboxModeRequirement → Text
  | .readOnly => "read-only".toList
  | .workspaceWrite => "workspace-write".toList
  | .dangerFullAccess => "danger-full-access".toList
  | .externalSandbox => "external-sandbox".toList

def materializeRemoteSandboxConfig (layerToml : TomlValue) (requirements : ConfigRequirementsToml K) : TomlValue :=
  let layerToml := removeTopLevelField layerToml "remote_sandbox_config".toList
  match requirements.allowedSandboxModes with
  | none => layerToml
  | some allowedSandboxModes =>
    insertTopLevelField layerToml "allowed_sandbox_modes".toList
      (.array (allowedSandboxModes.map fun mode => .scalar (.string mode.name)))

def isEmptyTable : Option TomlValue → Bool
  | some (.table []) => true
  | _ => false

/-- What is removed, and the value that is left. -/
def removeNestedFieldAndPruneEmpty : Path → TomlValue → Option TomlValue × TomlValue
  | key :: remaining, .table table =>
    if remaining.isEmpty then (get table key, .table (remove table key))
    else
      let (removed, table) :=
        match get table key with
        | some child =>
          let (removed, child) := removeNestedFieldAndPruneEmpty remaining child
          (removed, insert table key child)
        | none => (none, table)
      (removed, .table (if isEmptyTable (get table key) then remove table key else table))
  | _, value => (none, value)

def denyReadPath : Path := ["permissions".toList, "filesystem".toList, "deny_read".toList]

def stripSpecialFields (layerToml : TomlValue) : TomlValue :=
  let layerToml := removeTopLevelField layerToml "rules".toList
  let layerToml := removeTopLevelField layerToml "hooks".toList
  (removeNestedFieldAndPruneEmpty denyReadPath layerToml).2

def ComposableRequirementsLayer.fromEntry (C : Codec K) (hostname : Option Text) (layer : RequirementsLayerEntry) :
    Composition (ComposableRequirementsLayer K) := do
  let regularToml ← parseLayerToml C layer
  let requirements ← parseLayerRequirements C layer
  -- The host name is asked for only by a layer that selects by it.
  let requirements := requirements.applyRemoteSandboxConfig C (if requirements.remoteSandboxConfig.isSome then hostname else none)
  let regularToml := materializeResolvedPathRequirements regularToml.value requirements
  let regularToml := materializeRemoteSandboxConfig regularToml requirements
  return {
    source := layer.source
    regularToml := stripSpecialFields regularToml
    rules := requirements.rules
    hooks := requirements.hooks
    permissions := requirements.permissions }

/-! ## Rules -/

def mergeRules (target : Option (Sourced (RequirementsExecPolicyToml K))) (incoming : Option (RequirementsExecPolicyToml K))
    (source : RequirementSource) : Option (Sourced (RequirementsExecPolicyToml K)) :=
  match incoming, target with
  | none, target => target
  | some incoming, none => some { value := incoming, source }
  | some incoming, some existing =>
    some {
      value := { prefixRules := existing.value.prefixRules ++ incoming.prefixRules }
      source := mergeOutputSource existing.source source }

/-! ## Hooks -/

inductive HookDirectoryField where
  | managedDir
  | windowsManagedDir
  deriving DecidableEq

/-- What differs from one platform to another: which directory is used, and the components
of a path, by which paths are compared. -/
structure Platform where
  hookDirectoryField : HookDirectoryField
  components : Text → List Text

/-- `Path::components` on Unix: the root, the names, and a first dot. -/
def unixComponents (path : Text) : List Text :=
  let parts := path.splitOn '/'
  (if path.head? = some '/' then [['/']] else if parts.head? = some ['.'] then [['.']] else []) ++
    parts.filter fun part => !part.isEmpty && part != ['.']

def unix : Platform where
  hookDirectoryField := .managedDir
  components := unixComponents

namespace HookDirectoryField

def fieldName : HookDirectoryField → Text
  | .managedDir => "hooks.managed_dir".toList
  | .windowsManagedDir => "hooks.windows_managed_dir".toList

def inactive : HookDirectoryField → HookDirectoryField
  | .managedDir => .windowsManagedDir
  | .windowsManagedDir => .managedDir

end HookDirectoryField

/-- `hook_dir_mut`, read. -/
def ManagedHooksRequirementsToml.hookDir (hooks : ManagedHooksRequirementsToml K) : HookDirectoryField → Option Text
  | .managedDir => hooks.managedDir
  | .windowsManagedDir => hooks.windowsManagedDir

/-- `hook_dir_mut`, written. -/
def ManagedHooksRequirementsToml.setHookDir (hooks : ManagedHooksRequirementsToml K) (field : HookDirectoryField)
    (dir : Option Text) : ManagedHooksRequirementsToml K :=
  match field with
  | .managedDir => { hooks with managedDir := dir }
  | .windowsManagedDir => { hooks with windowsManagedDir := dir }

structure HookMergeState where
  directoryField : HookDirectoryField
  dirSources : HookDirectoryField → Option RequirementSource

namespace HookMergeState

def new (directoryField : HookDirectoryField) : HookMergeState where
  directoryField
  dirSources _ := none

/-- `dir_sources.entry(field).or_insert(source)` -/
def orInsertSource (s : HookMergeState) (field : HookDirectoryField) (source : RequirementSource) : HookMergeState :=
  { s with dirSources := fun f => if f = field then (s.dirSources f).or (some source) else s.dirSources f }

def trackSingletonSource (s : HookMergeState) (field : HookDirectoryField) (value : Option Text) (source : RequirementSource) :
    HookMergeState :=
  if value.isSome then s.orInsertSource field source else s

def conflictMessage (existing incoming : Text) : Text :=
  "`".toList ++ existing ++ "` conflicts with `".toList ++ incoming ++ "`".toList

/-- Whether that changes the directory, and what it is then. -/
def mergeActiveSingleton (P : Platform) (s : HookMergeState) (field : HookDirectoryField) (existing incoming : Option Text)
    (incomingSource : RequirementSource) : Composition (Bool × Option Text × HookMergeState) :=
  match incoming with
  | none => .ok (false, existing, s)
  | some incoming =>
    match existing with
    | some existingValue =>
      if P.components existingValue ≠ P.components incoming then
        .error (.conflict field.fieldName ((s.dirSources field).getD incomingSource) incomingSource
          (conflictMessage existingValue incoming))
      else .ok (false, existing, s)
    | none => .ok (true, some incoming, s.orInsertSource field incomingSource)

def fillSingleton (s : HookMergeState) (field : HookDirectoryField) (existing incoming : Option Text)
    (incomingSource : RequirementSource) : Bool × Option Text × HookMergeState :=
  match existing, incoming with
  | none, some incoming => (true, some incoming, s.orInsertSource field incomingSource)
  | existing, _ => (false, existing, s)

def merge (P : Platform) (s : HookMergeState) (target : Option (Sourced (ManagedHooksRequirementsToml K)))
    (incoming : Option (ManagedHooksRequirementsToml K)) (source : RequirementSource) :
    Composition (HookMergeState × Option (Sourced (ManagedHooksRequirementsToml K))) :=
  match incoming.filter fun value => !value.isEmpty with
  | none => .ok (s, target)
  | some incoming =>
    match target with
    | none =>
      let s := s.trackSingletonSource .managedDir incoming.managedDir source
      let s := s.trackSingletonSource .windowsManagedDir incoming.windowsManagedDir source
      .ok (s, some { value := incoming, source })
    | some existing => do
      let activeField := s.directoryField
      let inactiveField := activeField.inactive
      let (activeChanged, dir, s) ←
        mergeActiveSingleton P s activeField (existing.value.hookDir activeField) (incoming.hookDir activeField) source
      let value := existing.value.setHookDir activeField dir
      let (inactiveChanged, dir, s) :=
        fillSingleton s inactiveField (value.hookDir inactiveField) (incoming.hookDir inactiveField) source
      let value := value.setHookDir inactiveField dir
      let (eventsChanged, hooks) := value.hooks.append incoming.hooks
      return (s, some {
        value := { value with hooks }
        source :=
          if activeChanged || inactiveChanged || eventsChanged then mergeOutputSource existing.source source
          else existing.source })

end HookMergeState

/-! ## Patterns that may not be read -/

structure DenyReadMergeState where
  denyRead : List FilesystemDenyReadPattern := []
  source : Option RequirementSource := none

namespace DenyReadMergeState

def mergeSource (s : DenyReadMergeState) (source : RequirementSource) : DenyReadMergeState :=
  match s.source with
  | none => { s with source := some source }
  | some existing => { s with source := some (mergeOutputSource existing source) }

def addPattern (source : RequirementSource) (s : DenyReadMergeState) (pattern : FilesystemDenyReadPattern) :
    DenyReadMergeState :=
  if s.denyRead.contains pattern then s else { s with denyRead := s.denyRead ++ [pattern] }.mergeSource source

def merge (s : DenyReadMergeState) (incoming : Option (PermissionsRequirementsToml K)) (source : RequirementSource) :
    DenyReadMergeState :=
  match ((incoming.bind fun permissions => permissions.filesystem).bind fun filesystem => filesystem.denyRead).filter
      (fun denyRead => !denyRead.isEmpty) with
  | none => s
  | some incomingDenyRead => incomingDenyRead.foldl (addPattern source) s

def applyTo (s : DenyReadMergeState) (target : Option (Sourced (PermissionsRequirementsToml K))) :
    Option (Sourced (PermissionsRequirementsToml K)) :=
  if s.denyRead.isEmpty then target
  else
    let source := s.source.getD .unknown
    match target with
    | none => some { value := { filesystem := some { denyRead := some s.denyRead }, profiles := [] }, source }
    | some existing =>
      let filesystem := existing.value.filesystem.getD {}
      let denyRead := s.denyRead.foldl
        (fun denyRead pattern => if denyRead.contains pattern then denyRead else denyRead ++ [pattern])
        (filesystem.denyRead.getD [])
      some {
        value := { existing.value with filesystem := some { denyRead := some denyRead } }
        source := if existing.source != source then .compositeOf [existing.source, source] else existing.source }

end DenyReadMergeState

/-! ## The stack -/

def topLevelValueForKeys (value : TomlValue) (keys : List Text) : Option TomlValue :=
  match value with
  | .table table => keys.findSome? (get table)
  | _ => none

def isTable : TomlValue → Bool
  | .table _ => true
  | _ => false

def sourceForTopLevelKeys (layers : List (ComposableRequirementsLayer K)) (keys : List Text) : RequirementSource :=
  let matchingLayers := layers.filterMap fun layer =>
    (topLevelValueForKeys layer.regularToml keys).map fun value => (layer.source, value)
  match matchingLayers.getLast? with
  | none => .unknown
  | some (winningSource, winningValue) =>
    if !isTable winningValue then winningSource
    else
      let tableSources := (matchingLayers.reverse.filter fun layer => isTable layer.2).map Prod.fst
      if 1 < tableSources.length then .compositeOf tableSources else winningSource

section

variable (layers : List (ComposableRequirementsLayer K))

/-- `set_sourced!` -/
def setSourced {α : Type} (value : Option α) (keys : List Text) : Option (Sourced α) :=
  value.map fun value => { value, source := sourceForTopLevelKeys layers keys }

def populateMergedRegularFieldsWithSources (requirements : ConfigRequirementsToml K) : ConfigRequirementsWithSources K where
  sqliteHome := setSourced layers requirements.sqliteHome ["sqlite_home".toList]
  logDir := setSourced layers requirements.logDir ["log_dir".toList]
  modelCatalogJson := setSourced layers requirements.modelCatalogJson ["model_catalog_json".toList]
  allowedSandboxModes := setSourced layers requirements.allowedSandboxModes ["allowed_sandbox_modes".toList]
  hooks := none
  rules := none
  permissions := setSourced layers requirements.permissions ["permissions".toList]
  guardianPolicyConfig :=
    setSourced layers (requirements.guardianPolicyConfig.filter fun value => !(trim value).isEmpty)
      ["guardian_policy_config".toList]
  others := requirements.others.map fun field => (field.1, { value := field.2, source := sourceForTopLevelKeys layers field.1 })

end

/-- What the layers add to, the highest first. -/
structure DomainFields (K : Kinds) where
  rules : Option (Sourced (RequirementsExecPolicyToml K))
  hooks : HookMergeState
  hooksOutput : Option (Sourced (ManagedHooksRequirementsToml K))
  denyRead : DenyReadMergeState

def DomainFields.merge (P : Platform) (s : DomainFields K) (layer : ComposableRequirementsLayer K) :
    Composition (DomainFields K) := do
  let rules := mergeRules s.rules layer.rules layer.source
  let (hooks, hooksOutput) ← s.hooks.merge P s.hooksOutput layer.hooks layer.source
  return { rules, hooks, hooksOutput, denyRead := s.denyRead.merge layer.permissions layer.source }

section

variable {Hook : Type} (L : Libraries Hook) (toLowercase : Text → Text) (C : Codec K) (P : Platform)

def mergedToml (layers : List (ComposableRequirementsLayer K)) : TomlValue :=
  layers.foldl (fun merged layer => mergeTomlValues L toLowercase merged layer.regularToml) (.table [])

def compose (layers : List (ComposableRequirementsLayer K)) : Composition (Option (ConfigRequirementsWithSources K)) := do
  let requirements ← (C.tryInto none (mergedToml L toLowercase layers)).mapError .composedParse
  let output := populateMergedRegularFieldsWithSources layers requirements
  let fields ← layers.reverse.foldlM (DomainFields.merge P)
    { rules := none, hooks := .new P.hookDirectoryField, hooksOutput := none, denyRead := {} }
  let output := { output with
    rules := fields.rules
    hooks := fields.hooksOutput
    permissions := fields.denyRead.applyTo output.permissions }
  return if output.intoToml.isEmpty then none else some output

/-- `compose_requirements`, the lowest layer first. -/
def composeRequirements (hostname : Option Text) (layers : List RequirementsLayerEntry) :
    Composition (Option (ConfigRequirementsWithSources K)) := do
  let layers ← layers.mapM (ComposableRequirementsLayer.fromEntry C hostname)
  compose L toLowercase C P layers

end

end Codex.Requirements
