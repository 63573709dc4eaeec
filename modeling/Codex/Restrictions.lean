/-
No layer's restriction is dropped. What was taken out of a layer's TOML does not come back
through the merge (`valueAt_merge`); and what is gathered from the highest layer down
(`Gathered`) are the layers' lists one after the other.
-/
import Codex.ConfigUnion
import Codex.Lib.Results
import Codex.Requirements

namespace Codex.Requirements

open ConfigMerge
open NetworkProxy (Libraries plainLibraries toAsciiLowercase)
open OrderedTables
open Results

variable {K : Kinds}

/-! ## What a requirement says -/

def patternsOf (permissions : Option (PermissionsRequirementsToml K)) : List FilesystemDenyReadPattern :=
  ((permissions.bind fun permissions => permissions.filesystem).bind fun filesystem => filesystem.denyRead).getD []

def prefixRulesOf (rules : Option (RequirementsExecPolicyToml K)) : List K.PrefixRule :=
  (rules.map fun rules => rules.prefixRules).getD []

inductive HookEventName where
  | preToolUse
  | permissionRequest
  | postToolUse
  | preCompact
  | postCompact
  | sessionStart
  | sessionEnd
  | userPromptSubmit
  | subagentStart
  | subagentStop
  | stop

def HookEventsToml.groups (events : HookEventsToml K) : HookEventName → List K.MatcherGroup
  | .preToolUse => events.preToolUse
  | .permissionRequest => events.permissionRequest
  | .postToolUse => events.postToolUse
  | .preCompact => events.preCompact
  | .postCompact => events.postCompact
  | .sessionStart => events.sessionStart
  | .sessionEnd => events.sessionEnd
  | .userPromptSubmit => events.userPromptSubmit
  | .subagentStart => events.subagentStart
  | .subagentStop => events.subagentStop
  | .stop => events.stop

def groupsOf (hooks : Option (ManagedHooksRequirementsToml K)) (event : HookEventName) : List K.MatcherGroup :=
  (hooks.map fun hooks => hooks.hooks.groups event).getD []

def hookDirOf (hooks : Option (ManagedHooksRequirementsToml K)) (field : HookDirectoryField) : Option Text :=
  hooks.bind fun hooks => hooks.hookDir field

/-- The library leaves a field unset that the document does not have. -/
structure Codec.Lawful (C : Codec K) : Prop where
  absent : ∀ {baseDir : Option Text} {entries : List (Text × TomlValue)} {requirements : ConfigRequirementsToml K},
    C.tryInto baseDir (.table entries) = .ok requirements → valueAt denyReadPath (.table entries) = none →
      ((requirements.permissions.bind fun permissions => permissions.filesystem).bind fun filesystem =>
        filesystem.denyRead) = none

/-! ## What is taken out of a document -/

section

variable {entries : List (Text × TomlValue)}

theorem WellFormed.keys (h : WellFormed (.table entries)) : (entries.map Prod.fst).Nodup := by
  cases h with
  | table _ keys _ => exact keys

theorem WellFormed.of_get (h : WellFormed (.table entries)) {key : Text} {value}
    (hget : get entries key = some value) : WellFormed value := by
  cases h with
  | table _ _ values => exact values key value (mem_of_get hget)

theorem WellFormed.insert (h : WellFormed (.table entries)) (key : Text) {value} (hvalue : WellFormed value) :
    WellFormed (.table (insert entries key value)) := by
  refine .table _ (nodup_insert h.keys key value) fun key' value' hin => ?_
  rcases mem_insert hin with heq | hold
  · cases heq
    exact hvalue
  · exact h.of_get (get_of_mem h.keys hold)

theorem WellFormed.remove (h : WellFormed (.table entries)) (key : Text) : WellFormed (.table (remove entries key)) :=
  .table _ (nodup_remove h.keys key) fun _ _ hin => h.of_get (get_of_mem h.keys (List.mem_of_mem_filter hin))

end

/-- A table in which no key is twice. -/
def Document (value : TomlValue) : Prop := (∃ entries, value = .table entries) ∧ WellFormed value

def WithoutPatterns (value : TomlValue) : Prop := (∃ entries, value = .table entries) ∧ valueAt denyReadPath value = none

/-- What is left of a layer's document. -/
structure Stripped (value : TomlValue) : Prop where
  document : Document value
  absent : valueAt denyReadPath value = none

variable {value : TomlValue} {path : Path} {place : Place} {α : Type}
  {layers : List (ComposableRequirementsLayer K)}

variable (key : Text)

theorem Document.removeTopLevelField (h : Document value) (key : Text) :
    Document (removeTopLevelField value key) := by
  obtain ⟨⟨entries, rfl⟩, hwf⟩ := h
  exact ⟨⟨_, rfl⟩, hwf.remove key⟩

theorem Document.insertTopLevelField (h : Document value) (key : Text) {field}
    (hfield : WellFormed field) : Document (insertTopLevelField value key field) := by
  obtain ⟨⟨entries, rfl⟩, hwf⟩ := h
  exact ⟨⟨_, rfl⟩, hwf.insert key hfield⟩

theorem Document.materializePath (h : Document value) (field : Text × Option Text) :
    Document (materializePath value field) := by
  unfold Requirements.materializePath
  split
  next path _ => exact h.insertTopLevelField _ (.scalar _)
  next => exact h

theorem Document.materializeResolvedPathRequirements (h : Document value)
    (requirements : ConfigRequirementsToml K) : Document (materializeResolvedPathRequirements value requirements) :=
  ((h.materializePath _).materializePath _).materializePath _

theorem Document.materializeRemoteSandboxConfig (h : Document value)
    (requirements : ConfigRequirementsToml K) : Document (materializeRemoteSandboxConfig value requirements) := by
  have hremoved := h.removeTopLevelField "remote_sandbox_config".toList
  unfold Requirements.materializeRemoteSandboxConfig
  split
  next => exact hremoved
  next modes _ =>
    refine hremoved.insertTopLevelField _ (.array _ fun item hitem => ?_)
    obtain ⟨mode, -, rfl⟩ := List.mem_map.1 hitem
    exact .scalar _

/-- What is left after a removal, table by table. -/
theorem removeNested_cons {remaining : Path} (hremaining : remaining ≠ [])
    (table : List (Text × TomlValue)) :
    ∃ table', (removeNestedFieldAndPruneEmpty (key :: remaining) (.table table)).2 =
      .table (if isEmptyTable (get table' key) then remove table' key else table') ∧
      ((get table key = none ∧ table' = table) ∨ ∃ child, get table key = some child ∧
        table' = insert table key (removeNestedFieldAndPruneEmpty remaining child).2) := by
  rw [removeNestedFieldAndPruneEmpty, if_neg (by simpa using hremaining)]
  cases get table key with
  | none => exact ⟨table, rfl, .inl ⟨rfl, rfl⟩⟩
  | some child => exact ⟨_, rfl, .inr ⟨child, rfl, rfl⟩⟩

theorem get_pruned (table : List (Text × TomlValue)) (key : Text) :
    get (if isEmptyTable (get table key) then remove table key else table) key =
      if isEmptyTable (get table key) then none else get table key := by
  split
  next => rw [get_remove, if_pos rfl]
  next => rfl

theorem removeNested_spec (hpath : path ≠ []) (h : WellFormed value) :
    WellFormed (removeNestedFieldAndPruneEmpty path value).2 ∧
      valueAt path (removeNestedFieldAndPruneEmpty path value).2 = none := by
  induction path generalizing value with
  | nil => exact absurd rfl hpath
  | cons key remaining ih =>
    cases value with
    | scalar s => exact ⟨h, rfl⟩
    | array items => exact ⟨h, rfl⟩
    | table table =>
      by_cases hremaining : remaining = []
      · subst hremaining
        refine ⟨h.remove key, ?_⟩
        show (get (remove table key) key).bind (valueAt []) = none
        rw [get_remove, if_pos rfl]
        rfl
      obtain ⟨table', hresult, hcases⟩ := removeNested_cons key hremaining table
      -- What is left under the key does not have the field.
      have hleft : WellFormed (.table table') ∧ ∀ child, get table' key = some child → valueAt remaining child = none := by
        rcases hcases with ⟨hnone, rfl⟩ | ⟨child, hchild, rfl⟩
        · exact ⟨h, fun child hchild => by rw [hnone] at hchild; cases hchild⟩
        · have hspec := ih hremaining (h.of_get hchild)
          refine ⟨h.insert key hspec.1, fun child' hchild' => ?_⟩
          rw [get_insert, if_pos rfl] at hchild'
          obtain rfl := Option.some.inj hchild'
          exact hspec.2
      rw [hresult]
      constructor
      · split
        next => exact hleft.1.remove key
        next => exact hleft.1
      · rw [valueAt, get_pruned]
        split
        next => rfl
        next => exact Option.bind_eq_none_iff.2 hleft.2

theorem isTable_removeNested (path : Path) (entries : List (Text × TomlValue)) :
    ∃ entries', (removeNestedFieldAndPruneEmpty path (.table entries)).2 = .table entries' := by
  cases path with
  | nil => exact ⟨entries, rfl⟩
  | cons key remaining =>
    rw [removeNestedFieldAndPruneEmpty]
    split
    next => exact ⟨_, rfl⟩
    next => exact ⟨_, rfl⟩

theorem denyReadPath_ne_nil : denyReadPath ≠ [] := List.cons_ne_nil _ _

theorem stripped_stripSpecialFields (h : Document value) : Stripped (stripSpecialFields value) := by
  have hdocument := (h.removeTopLevelField "rules".toList).removeTopLevelField "hooks".toList
  have hspec := removeNested_spec denyReadPath_ne_nil hdocument.2
  refine ⟨⟨?_, hspec.1⟩, hspec.2⟩
  obtain ⟨⟨entries, heq⟩, -⟩ := hdocument
  unfold stripSpecialFields
  dsimp only
  rw [heq]
  exact isTable_removeNested denyReadPath entries

/-! ## What the merge does not bring back -/

section

variable {Hook : Type} {L : Libraries Hook} {toLowercase : Text → Text}

/-- A place at which keys are not renamed and nothing is displaced. -/
def Plain (place : Place) : Prop := place = .root ∨ place = .permissions ∨ place = .profile

/-- A way through such places. -/
def PlainWay : Place → Path → Prop
  | _, [] => True
  | place, key :: path => Plain place ∧ PlainWay (place.child key) path

theorem plainWay_denyReadPath : PlainWay (placeOf []) denyReadPath :=
  ⟨.inl rfl, .inr (.inl rfl), .inr (.inr rfl), trivial⟩

theorem Plain.normalizeAt (h : Plain place) (table : List (Text × α)) :
    normalizeAt L toLowercase place table = table := by
  rcases h with rfl | rfl | rfl <;> rfl

theorem Plain.baseTable (h : Plain place) (overlay base : List (Text × TomlValue)) :
    baseTable L toLowercase place overlay base = base := by
  rcases h with rfl | rfl | rfl <;> rfl

theorem Plain.canonicalKey (h : Plain place) (key : Text) : canonicalKey L toLowercase place key = key := by
  rcases h with rfl | rfl | rfl <;> rfl

theorem Plain.aliasAt (h : Plain place) (table : List (Text × α)) : aliasAt place table = table := by
  rcases h with rfl | rfl | rfl <;> rfl

theorem valueAt_normalized {rest : Path} (hway : PlainWay (placeOf path) rest)
    (h : valueAt rest value = none) : valueAt rest (normalizedWithKeyAliases path value) = none := by
  induction rest generalizing path value with
  | nil => cases h
  | cons key rest ih =>
    obtain ⟨hplain, hway⟩ := hway
    cases value with
    | scalar s =>
      rfl
    | array items =>
      rfl
    | table entries =>
      rw [normalizedWithKeyAliases, normalizeKeyAliases_eq, hplain.aliasAt, normalizedEntries_eq, valueAt, get_mapValues]
      rw [valueAt] at h
      cases hvalue : get entries key with
      | none => rfl
      | some child =>
        rw [hvalue] at h
        rw [← placeOf_concat] at hway
        exact ih hway h

/-- **What neither the layer nor the base has, their merge does not have.** -/
theorem valueAt_merge {rest : Path} (hway : PlainWay (placeOf path) rest) {overlay base}
    (hwf : WellFormed overlay) (hoverlay : valueAt rest overlay = none) (hbase : valueAt rest base = none) :
    valueAt rest (mergeTomlValuesAtPath L toLowercase overlay base path) = none := by
  induction rest generalizing path overlay base with
  | nil => cases hoverlay
  | cons key rest ih =>
    cases overlay with
    | scalar s =>
      rw [mergeTomlValuesAtPath]
      · exact valueAt_normalized hway hoverlay
      · intro _ heq
        cases heq
    | array items =>
      rw [mergeTomlValuesAtPath]
      · exact valueAt_normalized hway hoverlay
      · intro _ heq
        cases heq
    | table overlay =>
      cases base with
      | scalar s =>
        rw [mergeTomlValuesAtPath, replace_of_not_table (.scalar s) (fun _ heq => TomlValue.noConfusion heq)]
        exact valueAt_normalized hway hoverlay
      | array items =>
        rw [mergeTomlValuesAtPath, replace_of_not_table (.array items) (fun _ heq => TomlValue.noConfusion heq)]
        exact valueAt_normalized hway hoverlay
      | table base =>
        obtain ⟨hplain, hway⟩ := hway
        rw [← placeOf_concat] at hway
        have hkeys : ((overlay.map Prod.fst).map (ConfigMerge.canonicalKey L toLowercase (placeOf path))).Nodup := by
          rw [List.map_congr_left fun key _ => hplain.canonicalKey key, List.map_id']
          exact hwf.keys
        rw [merge_table, valueAt, get_mergedTable hkeys, hplain.normalizeAt, hplain.baseTable]
        rw [valueAt] at hoverlay hbase
        cases hvalue : get overlay key with
        | none =>
          exact hbase
        | some value =>
          rw [hvalue] at hoverlay
          cases hexisting : get base key with
          | none => exact valueAt_normalized hway hoverlay
          | some existing =>
            rw [hexisting] at hbase
            exact ih hway (hwf.of_get hvalue) hoverlay hbase

theorem stripped_merge {overlay base} (ho : Stripped overlay) (hb : WithoutPatterns base) :
    WithoutPatterns (mergeTomlValues L toLowercase base overlay) := by
  refine ⟨?_, valueAt_merge plainWay_denyReadPath ho.document.2 ho.absent hb.2⟩
  obtain ⟨⟨entries, rfl⟩, -⟩ := ho.document
  obtain ⟨⟨entries', rfl⟩, -⟩ := hb
  exact ⟨_, merge_table ..⟩

variable (L toLowercase) in
theorem mergedToml_withoutPatterns {layers : List (ComposableRequirementsLayer K)}
    (h : ∀ layer ∈ layers, Stripped layer.regularToml) : WithoutPatterns (mergedToml L toLowercase layers) := by
  have hstart : WithoutPatterns (.table []) := ⟨⟨[], rfl⟩, rfl⟩
  exact List.foldlRecOn (motive := WithoutPatterns) layers _ hstart fun base hbase layer hlayer =>
    stripped_merge (h layer hlayer) hbase

end

/-! ## Unions in the order of first occurrence -/

theorem push_eraseDups [BEq α] [LawfulBEq α] (pre : List α) (x : α) :
    (if pre.eraseDups.contains x then pre.eraseDups else pre.eraseDups ++ [x]) = (pre ++ [x]).eraseDups := by
  have hmem : pre.eraseDups.contains x = pre.contains x := by
    rw [Bool.eq_iff_iff, List.contains_iff_mem, List.contains_iff_mem, List.mem_eraseDups]
  rw [List.eraseDups_append, hmem]
  by_cases hx : x ∈ pre
  · rw [if_pos (List.contains_iff_mem.2 hx)]
    simp [List.removeAll, hx]
  · rw [if_neg (mt List.contains_iff_mem.1 hx)]
    simp [List.removeAll, hx, List.eraseDups_cons]

theorem nodup_eraseDups [BEq α] [LawfulBEq α] (xs : List α) : xs.eraseDups.Nodup := by
  induction xs using List.reverseRecOn with
  | nil => exact .nil
  | append_singleton xs x ih =>
    rw [← push_eraseDups]
    split
    next => exact ih
    next h =>
      refine List.nodup_append.2 ⟨ih, List.nodup_singleton x, fun a ha b hb => ?_⟩
      rw [List.mem_singleton.1 hb]
      rintro rfl
      exact h (List.contains_iff_mem.2 ha)

theorem eraseDups_of_nodup [BEq α] [LawfulBEq α] {xs : List α} (h : xs.Nodup) : xs.eraseDups = xs := by
  induction xs with
  | nil => rfl
  | cons x xs ih =>
    rw [List.nodup_cons] at h
    have hothers : xs.filter (fun b => !b == x) = xs := by
      refine List.filter_eq_self.2 fun b hb => ?_
      simpa using fun heq : b = x => h.1 (heq ▸ hb)
    rw [List.eraseDups_cons, hothers, ih h.2]

/-- Adding what is not there yet, one by one. -/
theorem foldl_push [BEq α] [LawfulBEq α] (xs pre : List α) :
    xs.foldl (fun acc x => if acc.contains x then acc else acc ++ [x]) pre.eraseDups = (pre ++ xs).eraseDups := by
  induction xs generalizing pre with
  | nil => rw [List.foldl_nil, List.append_nil]
  | cons x xs ih => rw [List.foldl_cons, push_eraseDups, ih, List.append_assoc, List.singleton_append]

/-! ## One layer more -/

theorem patterns_addPattern (source : RequirementSource) (s : DenyReadMergeState) (pattern : FilesystemDenyReadPattern) :
    (DenyReadMergeState.addPattern source s pattern).denyRead =
      if s.denyRead.contains pattern then s.denyRead else s.denyRead ++ [pattern] := by
  unfold DenyReadMergeState.addPattern DenyReadMergeState.mergeSource
  split
  next => rfl
  next => split <;> rfl

theorem patterns_merge {s : DenyReadMergeState} {pre : List FilesystemDenyReadPattern} (h : s.denyRead = pre.eraseDups)
    (incoming : Option (PermissionsRequirementsToml K)) (source : RequirementSource) :
    (s.merge incoming source).denyRead = (pre ++ patternsOf incoming).eraseDups := by
  have hfold : ∀ (patterns : List FilesystemDenyReadPattern) (s : DenyReadMergeState),
      (patterns.foldl (DenyReadMergeState.addPattern source) s).denyRead =
        patterns.foldl (fun acc x => if acc.contains x then acc else acc ++ [x]) s.denyRead := by
    intro patterns
    induction patterns with
    | nil => exact fun s => rfl
    | cons pattern patterns ih =>
      intro s
      rw [List.foldl_cons, List.foldl_cons, ih, patterns_addPattern]
  unfold DenyReadMergeState.merge patternsOf
  generalize ((incoming.bind fun permissions => permissions.filesystem).bind fun filesystem => filesystem.denyRead) = denyRead
  cases denyRead with
  | none => rw [Option.filter_none, Option.getD_none, List.append_nil, h]
  | some patterns =>
    cases patterns with
    | nil => rw [Option.getD_some, List.append_nil, ← h]; rfl
    | cons pattern patterns =>
      show ((pattern :: patterns).foldl (DenyReadMergeState.addPattern source) s).denyRead = _
      rw [hfold, h, foldl_push, Option.getD_some]

theorem prefixRules_merge (target : Option (Sourced (RequirementsExecPolicyToml K)))
    (incoming : Option (RequirementsExecPolicyToml K)) (source : RequirementSource) :
    prefixRulesOf ((mergeRules target incoming source).map Sourced.value) =
      prefixRulesOf (target.map Sourced.value) ++ prefixRulesOf incoming := by
  cases incoming with
  | none => exact (List.append_nil _).symm
  | some incoming =>
    cases target with
    | none => rfl
    | some existing => rfl

theorem of_isEmpty {hooks : ManagedHooksRequirementsToml K} (h : hooks.isEmpty = true) :
    (∀ event, hooks.hooks.groups event = []) ∧ ∀ field, hooks.hookDir field = none := by
  unfold ManagedHooksRequirementsToml.isEmpty HookEventsToml.isEmpty at h
  simp only [Bool.and_eq_true, Option.isNone_iff_eq_none, List.isEmpty_iff] at h
  constructor
  · intro event
    cases event <;> simp only [HookEventsToml.groups, h]
  · intro field
    cases field <;> simp only [ManagedHooksRequirementsToml.hookDir, h]

variable {incoming : Option (ManagedHooksRequirementsToml K)}

theorem of_filter_none (h : (incoming.filter fun value => !value.isEmpty) = none) :
    (∀ event, groupsOf incoming event = []) ∧ ∀ field, hookDirOf incoming field = none := by
  cases incoming with
  | none => exact ⟨fun _ => rfl, fun _ => rfl⟩
  | some hooks => exact of_isEmpty (by simpa using Option.filter_eq_none_iff.1 h hooks rfl)

theorem groupsOf_of_all_isEmpty {hooks : Option (ManagedHooksRequirementsToml K)}
    (h : hooks.all ManagedHooksRequirementsToml.isEmpty = true) (event : HookEventName) : groupsOf hooks event = [] := by
  cases hooks with
  | none => rfl
  | some hooks => exact (of_isEmpty h).1 event

theorem groups_append (existing incoming : HookEventsToml K) (event : HookEventName) :
    (existing.append incoming).2.groups event = existing.groups event ++ incoming.groups event := by
  cases event <;> rfl

section

variable (hooks : ManagedHooksRequirementsToml K) (field : HookDirectoryField) (dir : Option Text)

@[simp] theorem hookDir_setHookDir : (hooks.setHookDir field dir).hookDir field = dir := by cases field <;> rfl

@[simp] theorem hookDir_setHookDir_inactive : (hooks.setHookDir field.inactive dir).hookDir field = hooks.hookDir field := by
  cases field <;> rfl

theorem hookDir_hooks (events : HookEventsToml K) : ({ hooks with hooks := events }).hookDir field = hooks.hookDir field := by
  cases field <;> rfl

@[simp] theorem hooks_setHookDir : (hooks.setHookDir field dir).hooks = hooks.hooks := by cases field <;> rfl

end

/-- What one layer's hooks do to those gathered so far. -/
structure HooksMerged (P : Platform) (active : HookDirectoryField) (existing : Option (ManagedHooksRequirementsToml K))
    (incoming result : Option (ManagedHooksRequirementsToml K)) : Prop where
  groups : ∀ event, groupsOf result event = groupsOf existing event ++ groupsOf incoming event
  kept : ∀ dir, hookDirOf existing active = some dir → hookDirOf result active = some dir
  taken : ∀ dir, hookDirOf incoming active = some dir →
    ∃ d, hookDirOf result active = some d ∧ P.components d = P.components dir

section

variable {P : Platform} {s s' : HookMergeState}

theorem field_trackSingletonSource (s : HookMergeState) (field : HookDirectoryField) (value : Option Text)
    (source : RequirementSource) : (s.trackSingletonSource field value source).directoryField = s.directoryField := by
  unfold HookMergeState.trackSingletonSource
  split <;> rfl

theorem field_fillSingleton (s : HookMergeState) (field : HookDirectoryField) (existing incoming : Option Text)
    (source : RequirementSource) : (s.fillSingleton field existing incoming source).2.2.directoryField = s.directoryField := by
  unfold HookMergeState.fillSingleton
  split <;> rfl

/-- The active directory is the first one given, and any other is the same path. -/
theorem mergeActiveSingleton_ok {field existing incoming dir source}
    {changed : Bool} (h : HookMergeState.mergeActiveSingleton P s field existing incoming source = .ok (changed, dir, s')) :
    s'.directoryField = s.directoryField ∧ (∀ d, existing = some d → dir = some d) ∧
      ∀ d, incoming = some d → ∃ d', dir = some d' ∧ P.components d' = P.components d := by
  unfold HookMergeState.mergeActiveSingleton at h
  split at h
  next =>
    cases h
    exact ⟨rfl, fun _ => id, nofun⟩
  next new =>
    split at h
    next old =>
      split at h
      next => cases h
      next hsame =>
        cases h
        refine ⟨rfl, fun _ => id, fun d hd => ?_⟩
        cases hd
        exact ⟨old, rfl, not_not.1 hsame⟩
    next =>
      cases h
      refine ⟨rfl, nofun, fun d hd => ?_⟩
      cases hd
      exact ⟨new, rfl, rfl⟩

theorem hooks_merge {target result source} (h : s.merge P target incoming source = .ok (s', result)) :
    s'.directoryField = s.directoryField ∧
      HooksMerged P s.directoryField (target.map Sourced.value) incoming (result.map Sourced.value) := by
  unfold HookMergeState.merge at h
  cases hfilter : incoming.filter fun value => !value.isEmpty with
  | none =>
    rw [hfilter] at h
    cases h
    obtain ⟨hgroups, hdir⟩ := of_filter_none hfilter
    refine ⟨rfl, fun event => ?_, fun _ => id, fun dir hin => ?_⟩
    · rw [hgroups, List.append_nil]
    · rw [hdir] at hin
      cases hin
  | some new =>
    rw [hfilter] at h
    obtain ⟨rfl, -⟩ := Option.filter_eq_some_iff.1 hfilter
    cases target with
    | none =>
      cases h
      exact ⟨(field_trackSingletonSource ..).trans (field_trackSingletonSource ..), fun _ => rfl, nofun,
        fun dir hin => ⟨dir, hin, rfl⟩⟩
    | some existing =>
      obtain ⟨⟨changed, dir, s₁⟩, hactive, h⟩ := bind_eq_ok.1 h
      obtain ⟨hfield, hkept, htaken⟩ := mergeActiveSingleton_ok hactive
      have hdir : ∀ (inactiveDir : Option Text) (events : HookEventsToml K), ManagedHooksRequirementsToml.hookDir
          { (existing.value.setHookDir s.directoryField dir).setHookDir s.directoryField.inactive inactiveDir with
            hooks := events }
          s.directoryField = dir := by
        intro inactiveDir events
        rw [hookDir_hooks, hookDir_setHookDir_inactive, hookDir_setHookDir]
      cases h
      refine ⟨(field_fillSingleton ..).trans hfield, fun event => ?_, fun d hd => ?_, fun d hd => ?_⟩
      · show (HookEventsToml.append _ new.hooks).2.groups event = _
        rw [groups_append, hooks_setHookDir, hooks_setHookDir]
        rfl
      · exact (hdir _ _).trans (hkept d hd)
      · obtain ⟨d', hd', hsame⟩ := htaken d hd
        exact ⟨d', (hdir _ _).trans hd', hsame⟩

end

/-! ## All layers -/

/-- What the layers done so far have added up to, the highest first. -/
structure Gathered (P : Platform) (done : List (ComposableRequirementsLayer K)) (s : DomainFields K) : Prop where
  rules : prefixRulesOf (s.rules.map Sourced.value) = done.flatMap fun layer => prefixRulesOf layer.rules
  groups : ∀ event, groupsOf (s.hooksOutput.map Sourced.value) event = done.flatMap fun layer => groupsOf layer.hooks event
  denyRead : s.denyRead.denyRead = (done.flatMap fun layer => patternsOf layer.permissions).eraseDups
  field : s.hooks.directoryField = P.hookDirectoryField
  dirs : ∀ layer ∈ done, ∀ dir, hookDirOf layer.hooks P.hookDirectoryField = some dir →
    ∃ d, hookDirOf (s.hooksOutput.map Sourced.value) P.hookDirectoryField = some d ∧ P.components d = P.components dir

variable {layer : ComposableRequirementsLayer K}

theorem Gathered.merge {P : Platform} {done : List (ComposableRequirementsLayer K)} {s : DomainFields K}
    {s' : DomainFields K} (hs : Gathered P done s) (h : s.merge P layer = .ok s') :
    Gathered P (done ++ [layer]) s' := by
  obtain ⟨⟨hooks, hooksOutput⟩, hhooks, h⟩ := bind_eq_ok.1 h
  cases h
  obtain ⟨hfield, hgroups, hkept, htaken⟩ := hooks_merge hhooks
  rw [hs.field] at hkept htaken
  constructor
  · rw [prefixRules_merge, hs.rules, List.flatMap_append, List.flatMap_singleton]
  · intro event
    rw [hgroups, hs.groups, List.flatMap_append, List.flatMap_singleton]
  · rw [patterns_merge hs.denyRead, List.flatMap_append, List.flatMap_singleton]
  · exact hfield.trans hs.field
  · intro l hl dir hdir
    rcases List.mem_append.1 hl with hold | hnew
    · obtain ⟨d, hd, hsame⟩ := hs.dirs l hold dir hdir
      exact ⟨d, hkept d hd, hsame⟩
    · rw [List.mem_singleton.1 hnew] at hdir
      exact htaken dir hdir

theorem gathered_foldlM {P s} (h : layers.foldlM (DomainFields.merge P)
      { rules := none, hooks := .new P.hookDirectoryField, hooksOutput := none, denyRead := {} } = .ok s) :
    Gathered P layers s := by
  have hstart : Gathered P ([] : List (ComposableRequirementsLayer K))
      { rules := none, hooks := .new P.hookDirectoryField, hooksOutput := none, denyRead := {} } :=
    ⟨rfl, fun _ => rfl, rfl, rfl, nofun⟩
  exact foldlM_invariant (fun _ _ _ _ hs hmerge => Gathered.merge hs hmerge) hstart h

theorem patterns_applyTo {s : DenyReadMergeState} (hnodup : s.denyRead.Nodup)
    {target : Option (Sourced (PermissionsRequirementsToml K))} (htarget : patternsOf (target.map Sourced.value) = []) :
    patternsOf ((s.applyTo target).map Sourced.value) = s.denyRead := by
  unfold DenyReadMergeState.applyTo
  split
  next hempty => rw [htarget, List.isEmpty_iff.1 hempty]
  next =>
    cases target with
    | none => rfl
    | some existing =>
      have hstart : (existing.value.filesystem.getD {}).denyRead.getD [] = [] := by
        cases hfilesystem : existing.value.filesystem with
        | none => rfl
        | some filesystem =>
          simp only [patternsOf, Option.map_some, Option.bind_some, hfilesystem] at htarget
          exact htarget
      show s.denyRead.foldl _ _ = _
      rw [hstart]
      exact (foldl_push s.denyRead []).trans (eraseDups_of_nodup hnodup)

/-! ## Layers as they are given -/

theorem fromEntry_ok {C hostname entry}
    (h : ComposableRequirementsLayer.fromEntry C hostname entry = .ok layer) :
    ∃ requirements, parseLayerRequirements C entry = .ok requirements ∧ Stripped layer.regularToml ∧
      layer.rules = requirements.rules ∧ layer.hooks = requirements.hooks ∧ layer.permissions = requirements.permissions := by
  obtain ⟨toml, -, h⟩ := bind_eq_ok.1 h
  obtain ⟨requirements, hrequirements, h⟩ := bind_eq_ok.1 h
  cases h
  have hdocument : Document toml.value := ⟨⟨toml.entries, rfl⟩, toml.wellFormed⟩
  have hsame : ∀ hostname, (requirements.applyRemoteSandboxConfig C hostname).rules = requirements.rules ∧
      (requirements.applyRemoteSandboxConfig C hostname).hooks = requirements.hooks ∧
      (requirements.applyRemoteSandboxConfig C hostname).permissions = requirements.permissions := by
    intro hostname
    unfold ConfigRequirementsToml.applyRemoteSandboxConfig
    split
    next =>
      split
      next => exact ⟨rfl, rfl, rfl⟩
      next => exact ⟨rfl, rfl, rfl⟩
    next => exact ⟨rfl, rfl, rfl⟩
  exact ⟨requirements, hrequirements,
    stripped_stripSpecialFields ((hdocument.materializeResolvedPathRequirements _).materializeRemoteSandboxConfig _), hsame _⟩

theorem layers_ok {C hostname entries}
    (h : List.Forall₂ (fun entry layer => ComposableRequirementsLayer.fromEntry C hostname entry = .ok layer) entries layers) :
    ∃ requirements : List (ConfigRequirementsToml K),
      List.Forall₂ (fun entry requirement => parseLayerRequirements C entry = .ok requirement) entries requirements ∧
      (∀ layer ∈ layers, Stripped layer.regularToml) ∧
      layers.map ComposableRequirementsLayer.rules = requirements.map ConfigRequirementsToml.rules ∧
      layers.map ComposableRequirementsLayer.hooks = requirements.map ConfigRequirementsToml.hooks ∧
      layers.map ComposableRequirementsLayer.permissions = requirements.map ConfigRequirementsToml.permissions := by
  induction h with
  | nil => exact ⟨[], .nil, nofun, rfl, rfl, rfl⟩
  | cons hlayer _ ih =>
    obtain ⟨requirements, hparse, hstripped, hrules, hhooks, hpermissions⟩ := ih
    obtain ⟨requirement, hfirst, hlayer, hrule, hhook, hpermission⟩ := fromEntry_ok hlayer
    refine ⟨requirement :: requirements, .cons hfirst hparse, List.forall_mem_cons.2 ⟨hlayer, hstripped⟩, ?_, ?_, ?_⟩
    · rw [List.map_cons, List.map_cons, hrules, hrule]
    · rw [List.map_cons, List.map_cons, hhooks, hhook]
    · rw [List.map_cons, List.map_cons, hpermissions, hpermission]

theorem flatMap_of_map_eq {β γ δ : Type} {f : α → γ} {g : β → γ} {xs : List α} {ys : List β} (h : xs.map f = ys.map g)
    (k : γ → List δ) : (xs.reverse.flatMap fun x => k (f x)) = ys.reverse.flatMap fun y => k (g y) := by
  have hx : (xs.reverse.flatMap fun x => k (f x)) = (xs.map f).reverse.flatMap k := by
    rw [← List.map_reverse, List.flatMap_map]
  rw [hx, h, ← List.map_reverse, List.flatMap_map]

variable {Hook : Type} {L : Libraries Hook} {toLowercase : Text → Text} {C : Codec K} {P : Platform}

/-- What the composed requirements say is what has been gathered. -/
theorem compose_ok (hC : C.Lawful)
    (hlayers : ∀ layer ∈ layers, Stripped layer.regularToml) {output : Option (ConfigRequirementsWithSources K)}
    (h : compose L toLowercase C P layers = .ok output) :
    ∃ fields, Gathered P layers.reverse fields ∧
      patternsOf ((output.bind fun o => o.permissions).map Sourced.value) = fields.denyRead.denyRead ∧
      prefixRulesOf ((output.bind fun o => o.rules).map Sourced.value) = prefixRulesOf (fields.rules.map Sourced.value) ∧
      ∀ event, groupsOf ((output.bind fun o => o.hooks).map Sourced.value) event =
        groupsOf (fields.hooksOutput.map Sourced.value) event := by
  obtain ⟨requirements, hrequirements, h⟩ := bind_eq_ok.1 h
  obtain ⟨fields, hfields, h⟩ := bind_eq_ok.1 h
  have hgathered := gathered_foldlM hfields
  refine ⟨fields, hgathered, ?_⟩
  -- The merged document has no patterns, so that those of the output are the gathered ones.
  obtain ⟨⟨entries, hentries⟩, habsent⟩ := mergedToml_withoutPatterns L toLowercase hlayers
  rw [hentries] at habsent hrequirements
  have hnone := hC.absent (mapError_eq_ok.1 hrequirements) habsent
  have htarget : patternsOf ((setSourced layers requirements.permissions ["permissions".toList]).map Sourced.value) = [] := by
    have hvalue : (setSourced layers requirements.permissions ["permissions".toList]).map Sourced.value =
        requirements.permissions := by
      unfold setSourced
      rw [Option.map_map]
      exact Option.map_id'
    rw [hvalue, patternsOf, hnone, Option.getD_none]
  have hnodup : fields.denyRead.denyRead.Nodup := by
    rw [hgathered.denyRead]
    exact nodup_eraseDups _
  have hpatterns := patterns_applyTo hnodup htarget
  cases h
  split
  next hempty =>
    unfold ConfigRequirementsToml.isEmpty ConfigRequirementsWithSources.intoToml at hempty
    simp only [Bool.and_eq_true, Option.isNone_iff_eq_none, Option.map_eq_none_iff] at hempty
    obtain ⟨⟨⟨⟨⟨-, hhooks⟩, hrules⟩, hpermissions⟩, -⟩, -⟩ := hempty
    refine ⟨?_, ?_, fun event => ?_⟩
    · have happlied : fields.denyRead.applyTo (setSourced layers requirements.permissions ["permissions".toList]) = none :=
        hpermissions
      rw [← hpatterns, happlied]
      rfl
    · rw [hrules]
      rfl
    · exact (groupsOf_of_all_isEmpty hhooks event).symm
  next => exact ⟨hpatterns, rfl, fun _ => rfl⟩

/-- **No restriction of a layer is dropped**: the patterns that may not be read are the union of the layers', and
the rules and hook groups are theirs one after the other, from the highest layer down. -/
theorem restrictions_kept (hC : C.Lawful) (hostname : Option Text) (entries : List RequirementsLayerEntry) :
    (∀ output, composeRequirements L toLowercase C P hostname entries = .ok output →
      ∃ requirements : List (ConfigRequirementsToml K),
        List.Forall₂ (fun entry requirement => parseLayerRequirements C entry = .ok requirement) entries requirements ∧
        patternsOf ((output.bind fun o => o.permissions).map Sourced.value) =
          (requirements.reverse.flatMap fun requirement => patternsOf requirement.permissions).eraseDups ∧
        prefixRulesOf ((output.bind fun o => o.rules).map Sourced.value) =
          (requirements.reverse.flatMap fun requirement => prefixRulesOf requirement.rules) ∧
        ∀ event, groupsOf ((output.bind fun o => o.hooks).map Sourced.value) event =
          requirements.reverse.flatMap fun requirement => groupsOf requirement.hooks event) ∧
    ∀ entry ∈ entries, ∀ entry' ∈ entries, ∀ requirement requirement' dir dir',
      parseLayerRequirements C entry = .ok requirement → parseLayerRequirements C entry' = .ok requirement' →
      hookDirOf requirement.hooks P.hookDirectoryField = some dir →
      hookDirOf requirement'.hooks P.hookDirectoryField = some dir' → P.components dir ≠ P.components dir' →
      ∃ error, composeRequirements L toLowercase C P hostname entries = .error error := by
  constructor
  · intro output h
    obtain ⟨layers, hlayers, h⟩ := bind_eq_ok.1 h
    obtain ⟨requirements, hparse, hstripped, hrules, hhooks, hpermissions⟩ := layers_ok (mapM_eq_ok.1 hlayers)
    obtain ⟨fields, hgathered, hpatterns, hcomposed, hgroups⟩ := compose_ok hC hstripped h
    refine ⟨requirements, hparse, ?_, ?_, fun event => ?_⟩
    · rw [hpatterns, hgathered.denyRead, flatMap_of_map_eq hpermissions]
    · rw [hcomposed, hgathered.rules, flatMap_of_map_eq hrules]
    · rw [hgroups, hgathered.groups, flatMap_of_map_eq hhooks (groupsOf · event)]
  · intro entry hentry entry' hentry' requirement requirement' dir dir' hparse hparse' hdir hdir' hne
    cases h : composeRequirements L toLowercase C P hostname entries with
    | error error => exact ⟨error, rfl⟩
    | ok output =>
      obtain ⟨layers, hlayers, h⟩ := bind_eq_ok.1 h
      obtain ⟨requirements, -, hstripped, -⟩ := layers_ok (mapM_eq_ok.1 hlayers)
      obtain ⟨fields, hgathered, -⟩ := compose_ok hC hstripped h
      -- Both are the directory that was gathered.
      have hdirs : ∀ entry ∈ entries, ∀ requirement dir, parseLayerRequirements C entry = .ok requirement →
          hookDirOf requirement.hooks P.hookDirectoryField = some dir →
          ∃ d, hookDirOf (fields.hooksOutput.map Sourced.value) P.hookDirectoryField = some d ∧
            P.components d = P.components dir := by
        intro entry hentry requirement dir hparse hdir
        obtain ⟨layer, hlayer, hfrom⟩ := exists_of_mapM hlayers hentry
        obtain ⟨parsed, hparsed, -, -, hhooks, -⟩ := fromEntry_ok hfrom
        cases hparse.symm.trans hparsed
        exact hgathered.dirs layer (List.mem_reverse.2 hlayer) dir (by rw [hhooks, hdir])
      obtain ⟨d, hd, hsame⟩ := hdirs entry hentry requirement dir hparse hdir
      obtain ⟨d', hd', hsame'⟩ := hdirs entry' hentry' requirement' dir' hparse' hdir'
      obtain rfl := Option.some.inj (hd.symm.trans hd')
      exact absurd (hsame.symm.trans hsame') hne

/-! ## Layers above and below another permission -/

/-- What is only handed on, as it stands in the document. -/
def documentKinds : Kinds where
  PrefixRule := TomlValue
  MatcherGroup := TomlValue
  Profile := TomlValue
  Field := TomlValue
  fieldIsEmpty _ := false

def itemsAt (path : Path) (value : TomlValue) : List TomlValue :=
  match valueAt path value with
  | some (.array items) => items
  | _ => []

def stringAt (path : Path) (value : TomlValue) : Option Text :=
  match valueAt path value with
  | some (.scalar (.string s)) => some s
  | _ => none

def stringsOf : TomlValue → List Text
  | .array items => items.filterMap (stringAt [])
  | _ => []

/-- The hooks, rules and permissions of a document whose fields have the right types. -/
def documentRequirements (value : TomlValue) : ConfigRequirementsToml documentKinds where
  sqliteHome := none
  logDir := none
  modelCatalogJson := none
  allowedSandboxModes := none
  remoteSandboxConfig := none
  hooks := (valueAt ["hooks".toList] value).map fun hooks => {
    managedDir := stringAt ["managed_dir".toList] hooks
    windowsManagedDir := stringAt ["windows_managed_dir".toList] hooks
    hooks := {
      preToolUse := itemsAt ["PreToolUse".toList] hooks
      permissionRequest := itemsAt ["PermissionRequest".toList] hooks
      postToolUse := itemsAt ["PostToolUse".toList] hooks
      preCompact := itemsAt ["PreCompact".toList] hooks
      postCompact := itemsAt ["PostCompact".toList] hooks
      sessionStart := itemsAt ["SessionStart".toList] hooks
      sessionEnd := itemsAt ["SessionEnd".toList] hooks
      userPromptSubmit := itemsAt ["UserPromptSubmit".toList] hooks
      subagentStart := itemsAt ["SubagentStart".toList] hooks
      subagentStop := itemsAt ["SubagentStop".toList] hooks
      stop := itemsAt ["Stop".toList] hooks } }
  rules := (valueAt ["rules".toList] value).map fun rules => { prefixRules := itemsAt ["prefix_rules".toList] rules }
  permissions := (valueAt ["permissions".toList] value).map fun permissions => {
    filesystem := (valueAt ["filesystem".toList] permissions).map fun filesystem => {
      denyRead := (valueAt ["deny_read".toList] filesystem).map stringsOf }
    profiles := match permissions with
      | .table entries => remove entries "filesystem".toList
      | _ => [] }
  guardianPolicyConfig := none
  others := []

/-- Documents only, with absolute paths and no hosts. -/
def documentCodec : Codec documentKinds where
  parse _ := .error []
  fromStr _ _ := .error []
  tryInto _ value := .ok (documentRequirements value)
  wildMatch _ _ := false

theorem valueAt_cons (path : Path) (value : TomlValue) :
    valueAt (key :: path) value = (valueAt [key] value).bind (valueAt path) := by
  cases value with
  | scalar s => rfl
  | array items => rfl
  | table entries =>
    rw [valueAt, valueAt]
    cases get entries key <;> rfl

theorem documentCodec_lawful : documentCodec.Lawful where
  absent {baseDir entries requirements} h habsent := by
    cases h
    show (Option.bind (Option.map _ (valueAt ["permissions".toList] (.table entries))) _).bind _ = none
    rw [denyReadPath, valueAt_cons] at habsent
    cases hpermissions : valueAt ["permissions".toList] (.table entries) with
    | none => rfl
    | some permissions =>
      rw [hpermissions, Option.bind_some, valueAt_cons] at habsent
      show Option.bind (Option.map _ (valueAt ["filesystem".toList] permissions)) _ = none
      cases hfilesystem : valueAt ["filesystem".toList] permissions with
      | none => rfl
      | some filesystem =>
        rw [hfilesystem, Option.bind_some] at habsent
        show Option.map stringsOf (valueAt ["deny_read".toList] filesystem) = none
        rw [habsent]
        rfl

theorem wellFormed_single {key : Text} (h : WellFormed value) : WellFormed (.table [(key, value)]) := by
  refine .table _ (List.nodup_singleton _) fun key' value' hin => ?_
  cases List.mem_singleton.1 hin
  exact h

theorem wellFormed_strings (strings : List Text) : WellFormed (.array (strings.map fun s => .scalar (.string s))) := by
  refine .array _ fun item hitem => ?_
  obtain ⟨s, -, rfl⟩ := List.mem_map.1 hitem
  exact .scalar _

/-- A layer that only denies the reading of some paths. -/
def denyReadLayer (patterns : List Text) : RequirementsLayerEntry where
  source := .enterpriseManaged "1".toList "policy".toList
  toml := .value {
    entries := [("permissions".toList, .table [("filesystem".toList, .table [("deny_read".toList,
      .array (patterns.map fun s => .scalar (.string s)))])])]
    wellFormed := wellFormed_single (wellFormed_single (wellFormed_single (wellFormed_strings patterns))) }
  baseDir := none

/-- A layer with another permission. -/
def profileLayer : RequirementsLayerEntry where
  source := .systemRequirementsToml "/etc/codex/requirements.toml".toList
  toml := .value {
    entries := [("permissions".toList, .table [("work".toList, .table [])])]
    wellFormed := wellFormed_single (wellFormed_single (.table [] .nil nofun)) }
  baseDir := none

theorem restrictions_kept_above_profile : ∃ output,
    composeRequirements plainLibraries toAsciiLowercase documentCodec unix none
      [denyReadLayer ["/a".toList, "/b".toList], profileLayer, denyReadLayer ["/b".toList, "/c".toList]] = .ok output ∧
    patternsOf ((output.bind fun o => o.permissions).map Sourced.value) = ["/b".toList, "/c".toList, "/a".toList] := by
  have hok : (composeRequirements plainLibraries toAsciiLowercase documentCodec unix none
      [denyReadLayer ["/a".toList, "/b".toList], profileLayer, denyReadLayer ["/b".toList, "/c".toList]]).isOk = true := by
    decide +kernel
  cases h : composeRequirements plainLibraries toAsciiLowercase documentCodec unix none
      [denyReadLayer ["/a".toList, "/b".toList], profileLayer, denyReadLayer ["/b".toList, "/c".toList]] with
  | error e =>
    rw [h] at hok
    cases hok
  | ok output =>
    refine ⟨output, rfl, ?_⟩
    obtain ⟨requirements, hparse, hpatterns, -⟩ := (restrictions_kept documentCodec_lawful none _).1 output h
    rw [hpatterns]
    cases hparse with
    | cons hlow hparse =>
      cases hparse with
      | cons hmiddle hparse =>
        cases hparse with
        | cons hhigh hparse =>
          cases hparse
          cases hlow
          cases hmiddle
          cases hhigh
          decide +kernel

end Codex.Requirements
