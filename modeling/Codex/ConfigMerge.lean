/-
The merge of configuration layers. A layer may spell a key in more than one way:
a legacy name, a network host with its case or port, a filter pattern with its
case; and the filters of the shell environment have two representations, of
which the higher layer's stands.

A layer is put into what is merged so far, table by table. The keys of two
tables that meet are brought into their canonical form first; a subtree that
meets nothing is put in with its legacy names replaced, and nothing else.

Source: config/src/merge.rs, config/src/key_aliases.rs.
-/
import Codex.Lib.OrderedTables
import Codex.NetworkPolicy

namespace Codex.ConfigMerge

open NetworkProxy (Libraries normalizeHost)
open OrderedTables

inductive TomlScalar where
  | string (s : Text)
  | integer (n : Int)
  | float (literal : Text)
  | boolean (b : Bool)
  | datetime (literal : Text)
  deriving DecidableEq

/-- `toml::Value`. A table keeps its entries in the order of insertion. -/
inductive TomlValue where
  | scalar (s : TomlScalar)
  | array (items : List TomlValue)
  | table (entries : List (Text × TomlValue))

abbrev Path := List Text

/-! ## Canonical keys -/

structure ConfigKeyAlias where
  tablePath : Path
  legacyKey : Text
  canonicalKey : Text

def memoriesAlias : ConfigKeyAlias where
  tablePath := ["memories".toList]
  legacyKey := "no_memories_if_mcp_or_web_search".toList
  canonicalKey := "disable_on_external_context".toList

def agentsAlias : ConfigKeyAlias where
  tablePath := ["agents".toList]
  legacyKey := "max_threads".toList
  canonicalKey := "max_concurrent_threads_per_session".toList

def configKeyAliases : List ConfigKeyAlias := [memoriesAlias, agentsAlias]

def applyAlias {α : Type} (path : Path) (table : List (Text × α)) (a : ConfigKeyAlias) : List (Text × α) :=
  if path = a.tablePath then
    match get table a.legacyKey with
    | some value => orInsert (remove table a.legacyKey) a.canonicalKey value
    | none => table
  else table

def normalizeKeyAliases {α : Type} (path : Path) (table : List (Text × α)) : List (Text × α) :=
  configKeyAliases.foldl (applyAlias path) table

mutual

def normalizedWithKeyAliases (path : Path) : TomlValue → TomlValue
  | .scalar s => .scalar s
  | .array items => .array (normalizedItems path items)
  | .table entries => .table (normalizeKeyAliases path (normalizedEntries path entries))

def normalizedItems (path : Path) : List TomlValue → List TomlValue
  | [] => []
  | item :: items => normalizedWithKeyAliases path item :: normalizedItems path items

def normalizedEntries (path : Path) : List (Text × TomlValue) → List (Text × TomlValue)
  | [] => []
  | (key, child) :: entries => (key, normalizedWithKeyAliases (path ++ [key]) child) :: normalizedEntries path entries

end

def isPermissionNetworkDomainsPath : Path → Bool
  | [permissions, _, network, domains] =>
    permissions == "permissions".toList && network == "network".toList && domains == "domains".toList
  | _ => false

def isShellEnvironmentFiltersPath : Path → Bool
  | [policy, filters] => policy == "shell_environment_policy".toList && filters == "filters".toList
  | _ => false

def isShellEnvironmentPolicyPath : Path → Bool
  | [policy] => policy == "shell_environment_policy".toList
  | _ => false

/-! ## The representation of the filters -/

inductive ShellEnvironmentPolicyFilterRepresentation where
  | filters
  | legacy

namespace ShellEnvironmentPolicyFilterRepresentation

def fromPolicy : TomlValue → Option ShellEnvironmentPolicyFilterRepresentation
  | .table policy =>
    if (get policy "filters".toList).isSome then some .filters
    else if (get policy "exclude".toList).isSome || (get policy "include_only".toList).isSome then some .legacy
    else none
  | _ => none

def displacedFields : ShellEnvironmentPolicyFilterRepresentation → List Text
  | .filters => ["exclude".toList, "include_only".toList]
  | .legacy => ["filters".toList]

end ShellEnvironmentPolicyFilterRepresentation

open ShellEnvironmentPolicyFilterRepresentation (fromPolicy)

def replaceShellEnvironmentPolicyFilterRepresentation (base overlay : TomlValue) (path : Path) : TomlValue :=
  if isShellEnvironmentPolicyPath path then
    match fromPolicy overlay, base with
    | some overlayRepresentation, .table base => .table (overlayRepresentation.displacedFields.foldl remove base)
    | _, base => base
  else base

/-! ## The merge -/

section

variable {Hook : Type} (L : Libraries Hook) (toLowercase : Text → Text)

/-- The keys of a table that meets another, in their canonical form. -/
def normalizeKeys {α : Type} (path : Path) (table : List (Text × α)) : List (Text × α) :=
  let table := normalizeKeyAliases path table
  let table := if isPermissionNetworkDomainsPath path then rekey (normalizeHost L) table else table
  if isShellEnvironmentFiltersPath path then rekey toLowercase table else table

/-- An entry of the layer: its value, and how that is put into what is there. -/
structure Overlay where
  value : TomlValue
  mergeInto : (base : TomlValue) → (path : Path) → TomlValue

/-- The loop over the layer's entries. -/
def mergeEntries (path : Path) (base : List (Text × TomlValue)) (overlays : List (Text × Overlay)) : List (Text × TomlValue) :=
  overlays.foldl (fun base entry =>
    match get base entry.1 with
    | some existing => insert base entry.1 (entry.2.mergeInto existing (path ++ [entry.1]))
    | none => insert base entry.1 (normalizedWithKeyAliases (path ++ [entry.1]) entry.2.value)) base

mutual

def mergeTomlValuesAtPath : (overlay base : TomlValue) → (path : Path) → TomlValue
  | .table overlayTable, base, path =>
    match replaceShellEnvironmentPolicyFilterRepresentation base (.table overlayTable) path with
    | .table baseTable =>
      .table (mergeEntries path (normalizeKeys L toLowercase path baseTable)
        (normalizeKeys L toLowercase path (overlays overlayTable)))
    | _ => normalizedWithKeyAliases path (.table overlayTable)
  | overlay, _, path => normalizedWithKeyAliases path overlay

def overlays : List (Text × TomlValue) → List (Text × Overlay)
  | [] => []
  | (key, value) :: entries => (key, { value, mergeInto := mergeTomlValuesAtPath value }) :: overlays entries

end

/-- `overlay` over `base`. -/
def mergeTomlValues (base overlay : TomlValue) : TomlValue := mergeTomlValuesAtPath L toLowercase overlay base []

end

end Codex.ConfigMerge
