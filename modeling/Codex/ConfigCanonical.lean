/-
What a configuration says, whatever the spelling: a tree whose tables are
functions of canonical keys (`Config`), and the plain union of two such trees,
the higher one's value standing wherever it has one (`Config.overlay`).

Where keys have more than one spelling is told by the tables on the way from the
root (`Place`); the paths that the code compares with are such ways (`placeOf`).
-/
import Codex.ConfigMerge

namespace Codex.ConfigMerge

open NetworkProxy (Libraries normalizeHost)
open OrderedTables

/-! ## Configurations -/

inductive Config where
  | absent
  | scalar (s : TomlScalar)
  | array (items : List Config)
  | table (f : Text → Config)

inductive Place where
  | root
  | memories
  | agents
  | permissions
  | profile
  | network
  | domains
  | policy
  | filters
  | other
  deriving DecidableEq

def Place.child : Place → Text → Place
  | .root, key =>
    if key = "memories".toList then .memories
    else if key = "agents".toList then .agents
    else if key = "permissions".toList then .permissions
    else if key = "shell_environment_policy".toList then .policy
    else .other
  | .permissions, _ => .profile
  | .profile, key => if key = "network".toList then .network else .other
  | .network, key => if key = "domains".toList then .domains else .other
  | .policy, key => if key = "filters".toList then .filters else .other
  | .memories, _ | .agents, _ | .domains, _ | .filters, _ | .other, _ => .other

def placeOf (path : Path) : Place := path.foldl Place.child .root

def Config.isPresent : Config → Bool
  | .absent => false
  | .scalar _ | .array _ | .table _ => true

/-- What is left of a table when a higher layer selects a representation of the filters. -/
def displaced (place : Place) (overlay base : Text → Config) : Text → Config := fun key =>
  if place = .policy then
    if (overlay "filters".toList).isPresent then
      if key = "exclude".toList ∨ key = "include_only".toList then .absent else base key
    else if (overlay "exclude".toList).isPresent || (overlay "include_only".toList).isPresent then
      if key = "filters".toList then .absent else base key
    else base key
  else base key

/-- The right-biased union of two configurations, table by table. -/
def Config.overlay : (overlay base : Config) → (place : Place) → Config
  | .absent, base, _ => base
  | .table g, base, place =>
    match base with
    | .table f => .table fun key => Config.overlay (g key) (displaced place g f key) (place.child key)
    | _ => .table g
  | overlay, _, _ => overlay

section

variable {Hook : Type} (L : Libraries Hook) (toLowercase : Text → Text)

/-- The canonical form of a key. -/
def canonicalKey : Place → Text → Text
  | .memories, key => if key = memoriesAlias.legacyKey then memoriesAlias.canonicalKey else key
  | .agents, key => if key = agentsAlias.legacyKey then agentsAlias.canonicalKey else key
  | .domains, key => normalizeHost L key
  | .filters, key => toLowercase key
  | .root, key | .permissions, key | .profile, key | .network, key | .policy, key | .other, key => key

/-- The code's normalisers, by place. -/
def normalizeAt {α : Type} (place : Place) (table : List (Text × α)) : List (Text × α) :=
  match place with
  | .memories => applyAlias memoriesAlias.tablePath table memoriesAlias
  | .agents => applyAlias agentsAlias.tablePath table agentsAlias
  | .domains => rekey (normalizeHost L) table
  | .filters => rekey toLowercase table
  | _ => table

mutual

/-- A value in its canonical form: the code's normalisers at every table. -/
def canonical (place : Place) : TomlValue → Config
  | .scalar s => .scalar s
  | .array items => .array (canonicalItems place items)
  | .table entries => .table fun key =>
    (get (normalizeAt L toLowercase place (canonicalEntries place entries)) key).getD .absent

def canonicalItems (place : Place) : List TomlValue → List Config
  | [] => []
  | item :: items => canonical place item :: canonicalItems place items

def canonicalEntries (place : Place) : List (Text × TomlValue) → List (Text × Config)
  | [] => []
  | (key, child) :: entries => (key, canonical (place.child key) child) :: canonicalEntries place entries

end

/-- No table has two keys with one canonical form. -/
inductive Distinct : Place → TomlValue → Prop where
  | scalar (place : Place) (s : TomlScalar) : Distinct place (.scalar s)
  | array (place : Place) (items : List TomlValue) : Distinct place (.array items)
  | table (place : Place) (entries : List (Text × TomlValue))
      (keys : ((entries.map Prod.fst).map (canonicalKey L toLowercase place)).Nodup)
      (values : ∀ key value, (key, value) ∈ entries → Distinct (place.child key) value) : Distinct place (.table entries)

end

/-! ## Places and paths -/

theorem placeOf_concat (path : Path) (key : Text) : placeOf (path ++ [key]) = (placeOf path).child key := by
  unfold placeOf
  rw [List.foldl_append]
  rfl

theorem child_ne_root (place : Place) (key : Text) : place.child key ≠ .root := by
  unfold Place.child
  repeat' split
  all_goals exact nofun

theorem placeOf_eq_root {path : Path} : placeOf path = .root ↔ path = [] := by
  rcases List.eq_nil_or_concat path with rfl | ⟨path, key, rfl⟩
  · exact iff_of_true rfl rfl
  · rw [List.concat_eq_append, placeOf_concat]
    exact iff_of_false (child_ne_root _ _) (by simp)

/-- The one way to a place with a key of its own: the place above it, and the key. -/
def Place.way : Place → Option (Place × Text)
  | .memories => some (.root, "memories".toList)
  | .agents => some (.root, "agents".toList)
  | .permissions => some (.root, "permissions".toList)
  | .policy => some (.root, "shell_environment_policy".toList)
  | .network => some (.profile, "network".toList)
  | .domains => some (.network, "domains".toList)
  | .filters => some (.policy, "filters".toList)
  | .root | .profile | .other => none

theorem child_eq_iff {target parent : Place} {name : Text} (hway : target.way = some (parent, name)) (place key) :
    place.child key = target ↔ place = parent ∧ key = name := by
  cases target <;> cases hway <;> cases place <;> simp only [Place.child] <;> repeat' split
  all_goals simp_all

theorem child_eq_profile (place : Place) (key : Text) : place.child key = .profile ↔ place = .permissions := by
  cases place <;> simp only [Place.child] <;> repeat' split
  all_goals simp_all

/-! ## The code's paths -/

section

variable {path : Path}

theorem placeOf_eq_of_way (target : Place) {parent name} (hway : target.way = some (parent, name)) :
    placeOf path = target ↔ ∃ above, placeOf above = parent ∧ path = above ++ [name] := by
  rcases List.eq_nil_or_concat path with rfl | ⟨above, key, rfl⟩
  · exact iff_of_false (fun h => by cases target <;> cases hway <;> cases h) (by simp)
  · simp only [List.concat_eq_append, placeOf_concat, child_eq_iff hway, List.append_singleton_inj]
    exact ⟨fun ⟨hparent, hkey⟩ => ⟨above, hparent, rfl, hkey⟩, fun ⟨_, hparent, habove, hkey⟩ => ⟨habove ▸ hparent, hkey⟩⟩

theorem placeOf_eq_memories : placeOf path = .memories ↔ path = memoriesAlias.tablePath := by
  simp only [placeOf_eq_of_way .memories rfl, placeOf_eq_root, exists_eq_left]
  rfl

theorem placeOf_eq_agents : placeOf path = .agents ↔ path = agentsAlias.tablePath := by
  simp only [placeOf_eq_of_way .agents rfl, placeOf_eq_root, exists_eq_left]
  rfl

theorem placeOf_eq_policy : placeOf path = .policy ↔ path = ["shell_environment_policy".toList] := by
  simp only [placeOf_eq_of_way .policy rfl, placeOf_eq_root, exists_eq_left, List.nil_append]

theorem placeOf_eq_permissions : placeOf path = .permissions ↔ path = ["permissions".toList] := by
  simp only [placeOf_eq_of_way .permissions rfl, placeOf_eq_root, exists_eq_left, List.nil_append]

theorem placeOf_eq_filters :
    placeOf path = .filters ↔ path = ["shell_environment_policy".toList, "filters".toList] := by
  simp only [placeOf_eq_of_way .filters rfl, placeOf_eq_policy, exists_eq_left]
  rfl

theorem placeOf_eq_profile : placeOf path = .profile ↔ ∃ profile, path = ["permissions".toList, profile] := by
  rcases List.eq_nil_or_concat path with rfl | ⟨path, key, rfl⟩
  · exact iff_of_false nofun nofun
  · rw [List.concat_eq_append, placeOf_concat, child_eq_profile, placeOf_eq_permissions]
    constructor
    · rintro rfl
      exact ⟨key, rfl⟩
    · rintro ⟨profile, h⟩
      exact (List.append_singleton_inj.1 h).1

theorem placeOf_eq_network :
    placeOf path = .network ↔ ∃ profile, path = ["permissions".toList, profile, "network".toList] := by
  simp only [placeOf_eq_of_way .network rfl, placeOf_eq_profile]
  constructor
  · rintro ⟨_, ⟨profile, rfl⟩, rfl⟩
    exact ⟨profile, rfl⟩
  · rintro ⟨profile, rfl⟩
    exact ⟨_, ⟨profile, rfl⟩, rfl⟩

theorem placeOf_eq_domains :
    placeOf path = .domains ↔ ∃ profile, path = ["permissions".toList, profile, "network".toList, "domains".toList] := by
  simp only [placeOf_eq_of_way .domains rfl, placeOf_eq_network]
  constructor
  · rintro ⟨_, ⟨profile, rfl⟩, rfl⟩
    exact ⟨profile, rfl⟩
  · rintro ⟨profile, rfl⟩
    exact ⟨_, ⟨profile, rfl⟩, rfl⟩

theorem isShellEnvironmentPolicyPath_iff : isShellEnvironmentPolicyPath path = true ↔ placeOf path = .policy := by
  rw [placeOf_eq_policy]
  unfold isShellEnvironmentPolicyPath
  split
  next policy => rw [beq_iff_eq, List.singleton_inj]
  next h => exact iff_of_false nofun fun hpath => h _ hpath

theorem isShellEnvironmentFiltersPath_iff : isShellEnvironmentFiltersPath path = true ↔ placeOf path = .filters := by
  rw [placeOf_eq_filters]
  unfold isShellEnvironmentFiltersPath
  split
  next policy filters => rw [Bool.and_eq_true, beq_iff_eq, beq_iff_eq, List.cons.injEq, List.singleton_inj]
  next h => exact iff_of_false nofun fun hpath => h _ _ hpath

theorem isPermissionNetworkDomainsPath_iff : isPermissionNetworkDomainsPath path = true ↔ placeOf path = .domains := by
  rw [placeOf_eq_domains]
  unfold isPermissionNetworkDomainsPath
  split
  next permissions profile network domains =>
    rw [Bool.and_eq_true, Bool.and_eq_true, beq_iff_eq, beq_iff_eq, beq_iff_eq]
    constructor
    · rintro ⟨⟨rfl, rfl⟩, rfl⟩
      exact ⟨profile, rfl⟩
    · rintro ⟨profile', h⟩
      injection h with hpermissions h
      injection h with _ h
      injection h with hnetwork h
      injection h with hdomains
      exact ⟨⟨hpermissions, hnetwork⟩, hdomains⟩
  next h => exact iff_of_false nofun fun ⟨profile, hpath⟩ => h _ _ _ _ hpath

end

/-! ## The normalisers at a place -/

/-- The replacement of legacy names, by place. -/
def aliasAt {α : Type} (place : Place) (table : List (Text × α)) : List (Text × α) :=
  match place with
  | .memories => applyAlias memoriesAlias.tablePath table memoriesAlias
  | .agents => applyAlias agentsAlias.tablePath table agentsAlias
  | _ => table

section

variable {α : Type} (path : Path) (table : List (Text × α))

theorem normalizeKeyAliases_eq : normalizeKeyAliases path table = aliasAt (placeOf path) table := by
  show applyAlias path (applyAlias path table memoriesAlias) agentsAlias = _
  by_cases hmemories : placeOf path = .memories
  · rw [hmemories, placeOf_eq_memories.1 hmemories]
    exact if_neg (by decide)
  by_cases hagents : placeOf path = .agents
  · rw [hagents, placeOf_eq_agents.1 hagents]
    rfl
  · have hunchanged : aliasAt (placeOf path) table = table := by
      unfold aliasAt
      split
      next h => exact absurd h hmemories
      next h => exact absurd h hagents
      next => rfl
    unfold applyAlias
    rw [hunchanged, if_neg (mt placeOf_eq_agents.2 hagents), if_neg (mt placeOf_eq_memories.2 hmemories)]

end

section

variable {Hook : Type} {L : Libraries Hook} {toLowercase : Text → Text} {α : Type}

theorem normalizeKeys_eq (path : Path) (table : List (Text × α)) :
    normalizeKeys L toLowercase path table = normalizeAt L toLowercase (placeOf path) table := by
  unfold normalizeKeys
  rw [normalizeKeyAliases_eq]
  simp only [isPermissionNetworkDomainsPath_iff, isShellEnvironmentFiltersPath_iff]
  cases placeOf path <;> rfl

end

end Codex.ConfigMerge
