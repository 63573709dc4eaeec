/-
World-state snapshots and the merge patches between them
(`core/src/context/world_state/mod.rs`): what `create_merge_patch` records of
two snapshots, `apply_merge_patch_value` puts back.

A patch says with a null that a key is to go. A snapshot has none: those of the
sections are dropped when it is taken, except in arrays, which a patch replaces
whole. `Clean` is what a snapshot is then, and the replay of a chain of patches
rests on it (`applyMergePatch_of_mergePatchFrom`, `replay_records`).

Objects are in the order of their keys, on which neither the functions here nor the
equality of a `serde_json` map depend.
-/
import Codex.Lib.SortedEntries
import Codex.Reconstruct
import Mathlib.Data.String.Basic

namespace Codex

/-! ## Values -/

mutual

/-- `previous == current` -/
def Value.same : Value → Value → Bool
  | .null, .null => true
  | .bool b, .bool b' => b == b'
  | .number text, .number text' => text == text'
  | .string s, .string s' => s == s'
  | .array items, .array items' => sameItems items items'
  | .object entries, .object entries' => sameEntries entries entries'
  | _, _ => false
termination_by structural value => value

def sameItems : List Value → List Value → Bool
  | [], [] => true
  | item :: items, item' :: items' => item.same item' && sameItems items items'
  | _, _ => false
termination_by structural items => items

def sameEntries : List (String × Value) → List (String × Value) → Bool
  | [], [] => true
  | entry :: entries, entry' :: entries' => sameEntry entry entry' && sameEntries entries entries'
  | _, _ => false
termination_by structural entries => entries

def sameEntry : String × Value → String × Value → Bool
  | (key, value), entry => key == entry.1 && value.same entry.2
termination_by structural entry => entry

end

/-- Induction on what a value holds. -/
@[elab_as_elim]
theorem Value.nested {P : Value → Prop} (null : P .null) (bool : ∀ b, P (.bool b)) (number : ∀ text, P (.number text))
    (string : ∀ s, P (.string s)) (array : ∀ items, (∀ item ∈ items, P item) → P (.array items))
    (object : ∀ entries, (∀ entry ∈ entries, P entry.2) → P (.object entries)) (value : Value) : P value :=
  @Value.rec P (fun items => ∀ item ∈ items, P item) (fun entries => ∀ entry ∈ entries, P entry.2) (fun entry => P entry.2)
    null bool number string array object (fun _ h => absurd h List.not_mem_nil)
    (fun _ _ hitem hitems => List.forall_mem_cons.2 ⟨hitem, hitems⟩) (fun _ h => absurd h List.not_mem_nil)
    (fun _ _ hentry hentries => List.forall_mem_cons.2 ⟨hentry, hentries⟩) (fun _ _ h => h) value

theorem sameItems_iff {items items'} (h : ∀ item ∈ items, ∀ other, item.same other = true ↔ item = other) :
    sameItems items items' = true ↔ items = items' := by
  induction items generalizing items' with
  | nil => cases items' <;> simp [sameItems]
  | cons item items ih =>
    obtain ⟨hitem, hitems⟩ := List.forall_mem_cons.1 h
    cases items' with
    | nil => simp [sameItems]
    | cons item' items' => rw [sameItems, Bool.and_eq_true, hitem, ih hitems, List.cons.injEq]

theorem sameEntries_iff {entries entries'}
    (h : ∀ entry ∈ entries, ∀ other, entry.2.same other = true ↔ entry.2 = other) :
    sameEntries entries entries' = true ↔ entries = entries' := by
  induction entries generalizing entries' with
  | nil => cases entries' <;> simp [sameEntries]
  | cons entry entries ih =>
    obtain ⟨hentry, hentries⟩ := List.forall_mem_cons.1 h
    cases entries' with
    | nil => simp [sameEntries]
    | cons entry' entries' =>
      rw [sameEntries, Bool.and_eq_true, ih hentries, List.cons.injEq, sameEntry, Bool.and_eq_true, hentry, beq_iff_eq,
        Prod.ext_iff]

variable {value previous current patch : Value}

theorem Value.same_iff {value'} : value.same value' = true ↔ value = value' := by
  induction value using Value.nested generalizing value' with
  | null => cases value' <;> simp [same]
  | bool b => cases value' <;> simp [same]
  | number text => cases value' <;> simp [same]
  | string s => cases value' <;> simp [same]
  | array items ih =>
    cases value' with
    | array items' => rw [same, sameItems_iff (fun item h other => ih item h), array.injEq]
    | _ => simp [same]
  | object entries ih =>
    cases value' with
    | object entries' => rw [same, sameEntries_iff (fun entry h other => ih entry h), object.injEq]
    | _ => simp [same]

instance : DecidableEq Value := fun _ _ => decidable_of_iff _ Value.same_iff

/-! ## Snapshots -/

mutual

def removeNullObjectFields : Value → Value
  | .object entries => .object (removeNullEntries entries)
  | value => value
termination_by structural value => value

def removeNullEntries : List (String × Value) → List (String × Value)
  | [] => []
  | entry :: entries => removeNullEntry entry ++ removeNullEntries entries
termination_by structural entries => entries

/-- The entry, unless it is null: nothing is left of it then. -/
def removeNullEntry : String × Value → List (String × Value)
  | (key, value) => if value.isNull then [] else [(key, removeNullObjectFields value)]
termination_by structural entry => entry

end

/-- `ErasedWorldStateSection::snapshot` of a section that serializes to the value, if it does. -/
def sectionSnapshot (serialized : Option Value) : Option Value :=
  serialized.bind fun value =>
    if (removeNullObjectFields value).isNull then none else some (removeNullObjectFields value)

/-- Every object outside arrays has its entries in the order of their keys. -/
inductive Value.Ordered : Value → Prop
  | atom {value : Value} (h : ∀ entries, value ≠ .object entries) : Ordered value
  | object {entries : List (String × Value)} (ascending : SortedEntries.Ascending entries)
      (nested : ∀ entry ∈ entries, Ordered entry.2) : Ordered (.object entries)

/-- `WorldState`: the sections by their ids, each with what it serializes to, or nothing when that fails. -/
structure WorldState where
  sections : List (String × Option Value)
  distinct : (sections.map Prod.fst).Nodup
  ordered : ∀ s ∈ sections, ∀ value ∈ s.2, value.Ordered

def WorldState.snapshot (world : WorldState) : WorldStateSnapshot :=
  (world.sections.filterMap fun s => (sectionSnapshot s.2).map fun value => (s.1, value)).foldl
    (fun sections s => insertEntry s.1 s.2 sections) []

/-! ## Patches -/

def Value.asObject : Value → Option (List (String × Value))
  | .object entries => some entries
  | _ => none

/-- The patch's nulls, for the keys of `previous` that are gone. -/
def removedKeys (current : List (String × Value)) (previous : List (String × Value)) : List (String × Value) :=
  (previous.map Prod.fst).foldl
    (fun patch key => if (current.lookup key).isNone then insertEntry key .null patch else patch) []

mutual

def createMergePatch (previous : Value) : Value → Option Value
  | .object current =>
    if previous = .object current then none
    else some (.object (createMergePatchEntries previous.asObject
      (removedKeys current (previous.asObject.getD [])) current))
  | current => if previous = current then none else some current
termination_by structural current => current

/-- The loop over the current entries, from the patch so far. -/
def createMergePatchEntries (previous : Option (List (String × Value))) (patch : List (String × Value)) :
    List (String × Value) → List (String × Value)
  | [] => patch
  | entry :: current => createMergePatchEntries previous (createMergePatchEntry previous patch entry) current
termination_by structural current => current

def createMergePatchEntry (previous : Option (List (String × Value))) (patch : List (String × Value)) :
    String × Value → List (String × Value)
  | (key, currentValue) =>
    match previous.bind (·.lookup key) with
    | none => insertEntry key currentValue patch
    | some previousValue =>
      match createMergePatch previousValue currentValue with
      | some valuePatch => insertEntry key valuePatch patch
      | none => patch
termination_by structural entry => entry

end

def WorldStateSnapshot.intoValue (snapshot : WorldStateSnapshot) : Value := .object snapshot

def WorldStateSnapshot.mergePatchFrom (snapshot previous : WorldStateSnapshot) : Option Value :=
  createMergePatch (WorldStateSnapshot.intoValue previous) (WorldStateSnapshot.intoValue snapshot)

def WorldStateItem.ofFull (state : Value) : WorldStateItem := { full := true, state }

def WorldStateItem.ofPatch (state : Value) : WorldStateItem := { full := false, state }

/-- `ContextManager::update_world_state`, without the fragments it renders. -/
def ContextManager.updateWorldState (history : ContextManager) (world : WorldState) :
    ContextManager × Option WorldStateItem :=
  let snapshot := world.snapshot
  let rolloutItem := match history.worldStateBaseline with
    | none => some (.ofFull (WorldStateSnapshot.intoValue snapshot))
    | some previous => (WorldStateSnapshot.mergePatchFrom snapshot previous).map .ofPatch
  ({ history with worldStateBaseline := some snapshot }, rolloutItem)

/-- The records of the snapshots that follow `previous`. -/
def worldStatePatches (previous : WorldStateSnapshot) : List WorldStateSnapshot → List WorldStateItem
  | [] => []
  | current :: snapshots =>
    ((WorldStateSnapshot.mergePatchFrom current previous).map .ofPatch).toList ++ worldStatePatches current snapshots

/-- The records of a chain of snapshots: the first in full, then the patches. -/
def worldStateRecords (first : WorldStateSnapshot) (snapshots : List WorldStateSnapshot) : List WorldStateItem :=
  .ofFull (WorldStateSnapshot.intoValue first) :: worldStatePatches first snapshots

/-! ## Clean values -/

/-- No object outside arrays has a null in it. -/
inductive Value.Clean : Value → Prop
  | atom {value : Value} (h : ∀ entries, value ≠ .object entries) : Clean value
  | object {entries : List (String × Value)} (ascending : SortedEntries.Ascending entries)
      (notNull : ∀ entry ∈ entries, entry.2 ≠ .null) (nested : ∀ entry ∈ entries, Clean entry.2) : Clean (.object entries)

theorem Value.isNull_iff : value.isNull = true ↔ value = .null := by
  cases value <;> simp [isNull]

theorem Value.isNull_eq_false (h : value ≠ .null) : value.isNull = false :=
  eq_false_of_ne_true (mt isNull_iff.1 h)

theorem insertEntry_eq (key : String) (value : Value) (entries : List (String × Value)) :
    insertEntry key value entries = SortedEntries.insert key value entries := by
  induction entries with
  | nil => rfl
  | cons entry entries ih =>
    unfold insertEntry SortedEntries.insert
    rw [ih]

theorem lookup_insertEntry (key : String) (value : Value) (entries : List (String × Value)) (key' : String) :
    (insertEntry key value entries).lookup key' = if key' = key then some value else entries.lookup key' := by
  rw [insertEntry_eq, SortedEntries.lookup_insert]

theorem removeNullEntries_eq (entries : List (String × Value)) :
    removeNullEntries entries =
      (entries.filter fun entry => !entry.2.isNull).map fun entry => (entry.1, removeNullObjectFields entry.2) := by
  induction entries with
  | nil => rfl
  | cons entry entries ih =>
    rw [removeNullEntries, removeNullEntry, ih, List.filter_cons]
    cases entry.2.isNull <;> rfl

theorem removeNullObjectFields_ne_null (h : value ≠ .null) : removeNullObjectFields value ≠ .null := by
  cases value with
  | null => exact absurd rfl h
  | object entries => exact fun heq => Value.noConfusion heq
  | _ => exact h

theorem clean_removeNullObjectFields (h : value.Ordered) : (removeNullObjectFields value).Clean := by
  induction h with
  | @atom value h =>
    cases value with
    | object entries => exact absurd rfl (h entries)
    | _ => exact .atom h
  | object ascending nested ih =>
    rw [removeNullObjectFields, removeNullEntries_eq]
    refine .object ?_ (fun entry hentry => ?_) fun entry hentry => ?_
    · exact List.pairwise_map.2 (ascending.filter _)
    · obtain ⟨old, hold, rfl⟩ := List.mem_map.1 hentry
      have hnull := (List.mem_filter.1 hold).2
      refine removeNullObjectFields_ne_null fun heq => ?_
      rw [heq] at hnull
      cases hnull
    · obtain ⟨old, hold, rfl⟩ := List.mem_map.1 hentry
      exact ih old (List.mem_filter.1 hold).1

theorem Value.Clean.insertEntry {entries} (h : (Value.object entries).Clean) (key : String)
    (hnull : value ≠ .null) (hvalue : value.Clean) : (Value.object (insertEntry key value entries)).Clean := by
  cases h with
  | atom h => exact absurd rfl (h entries)
  | object ascending notNull nested =>
    rw [insertEntry_eq]
    refine .object (SortedEntries.ascending_insert ascending key value) (fun entry hentry => ?_) fun entry hentry => ?_
    · rcases SortedEntries.mem_insert hentry with rfl | hentry
      · exact hnull
      · exact notNull entry hentry
    · rcases SortedEntries.mem_insert hentry with rfl | hentry
      · exact hvalue
      · exact nested entry hentry

/-- **What a snapshot is.** -/
theorem WorldState.clean_snapshot (world : WorldState) : (Value.object world.snapshot).Clean := by
  have hgeneral : ∀ (sections : List (String × Value)) (start : List (String × Value)),
      (∀ s ∈ sections, s.2 ≠ .null ∧ s.2.Clean) → (Value.object start).Clean →
        (Value.object (sections.foldl (fun sections s => insertEntry s.1 s.2 sections) start)).Clean := by
    intro sections
    induction sections with
    | nil => exact fun _ _ hstart => hstart
    | cons s sections ih =>
      intro start hsections hstart
      obtain ⟨⟨hnull, hclean⟩, hrest⟩ := List.forall_mem_cons.1 hsections
      exact ih _ hrest (hstart.insertEntry s.1 hnull hclean)
  refine hgeneral _ [] (fun s hs => ?_) (.object .nil (fun _ h => absurd h List.not_mem_nil) fun _ h => absurd h List.not_mem_nil)
  obtain ⟨raw, hraw, hsome⟩ := List.mem_filterMap.1 hs
  obtain ⟨value, hvalue, rfl⟩ := Option.map_eq_some_iff.1 hsome
  obtain ⟨serialized, hserialized, hif⟩ := Option.bind_eq_some_iff.1 hvalue
  split at hif
  · cases hif
  next hnull =>
    cases hif
    refine ⟨fun heq => hnull (Value.isNull_iff.2 heq), ?_⟩
    exact clean_removeNullObjectFields (world.ordered raw hraw serialized hserialized)

/-! ## Applying a patch -/

/-- What a patch makes of the value of a key. -/
def patched (old : Option Value) : Option Value → Option Value
  | none => old
  | some value => if value.isNull then none else some (applyMergePatchValue (old.getD .null) value)

theorem lookup_applyMergePatchEntry (target : List (String × Value)) (key : String) (value : Value) (key' : String) :
    (applyMergePatchEntry target (key, value)).lookup key' =
      if key' = key then patched (target.lookup key) (some value) else target.lookup key' := by
  rw [applyMergePatchEntry, patched]
  split
  · exact SortedEntries.lookup_remove ..
  · exact lookup_insertEntry ..

theorem lookup_applyMergePatchEntries {patch} (h : SortedEntries.Ascending patch)
    (target : List (String × Value)) (key : String) :
    (applyMergePatchEntries target patch).lookup key = patched (target.lookup key) (patch.lookup key) := by
  induction patch generalizing target with
  | nil => rfl
  | cons entry patch ih =>
    obtain ⟨k, value⟩ := entry
    obtain ⟨hfirst, hrest⟩ := List.pairwise_cons.1 h
    rw [applyMergePatchEntries, ih hrest, lookup_applyMergePatchEntry, SortedEntries.lookup_cons]
    by_cases hk : key = k
    · subst hk
      rw [if_pos rfl, if_pos rfl, SortedEntries.lookup_of_lt hfirst]
      rfl
    · rw [if_neg hk, if_neg hk]

theorem ascending_applyMergePatchEntries (patch : List (String × Value)) {target}
    (h : SortedEntries.Ascending target) : SortedEntries.Ascending (applyMergePatchEntries target patch) := by
  induction patch generalizing target with
  | nil => exact h
  | cons entry patch ih =>
    refine ih ?_
    rw [applyMergePatchEntry]
    split
    · exact h.filter _
    · rw [insertEntry_eq]
      exact SortedEntries.ascending_insert h ..

theorem applyMergePatchValue_null (h : value.Clean) : applyMergePatchValue .null value = value := by
  induction h with
  | @atom value h =>
    cases value with
    | object entries => exact absurd rfl (h entries)
    | _ => rfl
  | @object entries ascending notNull nested ih =>
    have happly : applyMergePatchValue .null (.object entries) = .object (applyMergePatchEntries [] entries) := rfl
    rw [happly, Value.object.injEq]
    refine SortedEntries.ext_lookup (ascending_applyMergePatchEntries entries .nil) ascending fun key => ?_
    rw [lookup_applyMergePatchEntries ascending]
    cases hvalue : entries.lookup key with
    | none => rfl
    | some value =>
      have hmem := SortedEntries.mem_of_lookup hvalue
      rw [patched, if_neg (ne_true_of_eq_false (Value.isNull_eq_false (notNull _ hmem)))]
      exact congrArg some (ih _ hmem)

/-! ## The patch of two values -/

theorem createMergePatch_eq_none_iff : createMergePatch previous current = none ↔ previous = current := by
  have hatom (h : ∀ entries, current ≠ .object entries) :
      createMergePatch previous current = if previous = current then none else some current := by
    cases current with
    | object entries => exact absurd rfl (h entries)
    | _ => rfl
  by_cases hobject : ∃ entries, current = .object entries
  · obtain ⟨entries, rfl⟩ := hobject
    rw [createMergePatch]
    split
    next heq => exact iff_of_true rfl heq
    next hne => exact iff_of_false (Option.some_ne_none _) hne
  · rw [hatom fun entries heq => hobject ⟨entries, heq⟩]
    split
    next heq => exact iff_of_true rfl heq
    next hne => exact iff_of_false (Option.some_ne_none _) hne

theorem createMergePatch_atom (hcurrent : ∀ entries, current ≠ .object entries)
    (h : createMergePatch previous current = some patch) : patch = current := by
  have hvalue : createMergePatch previous current = if previous = current then none else some current := by
    cases current with
    | object entries => exact absurd rfl (hcurrent entries)
    | _ => rfl
  rw [hvalue] at h
  split at h
  · cases h
  · exact (Option.some.inj h).symm

theorem createMergePatch_object {current} (h : createMergePatch previous (.object current) = some patch) :
    patch = .object (createMergePatchEntries previous.asObject (removedKeys current (previous.asObject.getD [])) current) := by
  rw [createMergePatch] at h
  split at h
  · cases h
  · exact (Option.some.inj h).symm

theorem createMergePatch_ne_null (h : createMergePatch previous current = some patch)
    (hcurrent : current ≠ .null) : patch ≠ .null := by
  by_cases hobject : ∃ entries, current = .object entries
  · obtain ⟨entries, rfl⟩ := hobject
    rw [createMergePatch_object h]
    exact fun heq => Value.noConfusion heq
  · rwa [createMergePatch_atom (fun entries heq => hobject ⟨entries, heq⟩) h]

theorem lookup_removedKeys (current previous : List (String × Value)) (key : String) :
    (removedKeys current previous).lookup key =
      if key ∈ previous.map Prod.fst ∧ (current.lookup key).isNone then some .null else none := by
  have hgeneral : ∀ (keys : List String) (patch : List (String × Value)),
      (keys.foldl (fun patch key => if (current.lookup key).isNone then insertEntry key .null patch else patch)
        patch).lookup key =
      if key ∈ keys ∧ (current.lookup key).isNone then some .null else patch.lookup key := by
    intro keys
    induction keys with
    | nil => exact fun patch => (if_neg fun h => List.not_mem_nil h.1).symm
    | cons k keys ih =>
      intro patch
      rw [List.foldl_cons, ih]
      by_cases hk : key = k
      · subst hk
        cases hnone : (current.lookup key).isNone with
        | true => simp [lookup_insertEntry]
        | false => simp
      · have hstep : (if (current.lookup k).isNone then insertEntry k .null patch else patch).lookup key =
            patch.lookup key := by
          split
          · rw [lookup_insertEntry, if_neg hk]
          · rfl
        have hmem : key ∈ keys ↔ key ∈ k :: keys := by rw [List.mem_cons, or_iff_right hk]
        exact if_congr (and_congr_left' hmem) rfl hstep
  exact hgeneral _ []

theorem ascending_removedKeys (current previous : List (String × Value)) :
    SortedEntries.Ascending (removedKeys current previous) := by
  have hgeneral : ∀ (keys : List String) (patch : List (String × Value)), SortedEntries.Ascending patch →
      SortedEntries.Ascending (keys.foldl
        (fun patch key => if (current.lookup key).isNone then insertEntry key .null patch else patch) patch) := by
    intro keys
    induction keys with
    | nil => exact fun _ h => h
    | cons k keys ih =>
      intro patch h
      refine ih _ ?_
      dsimp only
      split
      · rw [insertEntry_eq]
        exact SortedEntries.ascending_insert h ..
      · exact h
  exact hgeneral _ [] .nil

def patchOf (previous : Option (List (String × Value))) (key : String) (currentValue : Value) : Option Value :=
  match previous.bind (·.lookup key) with
  | none => some currentValue
  | some previousValue => createMergePatch previousValue currentValue

theorem createMergePatchEntry_eq (previous : Option (List (String × Value))) (patch : List (String × Value)) (key : String)
    (currentValue : Value) : createMergePatchEntry previous patch (key, currentValue) =
      match patchOf previous key currentValue with
      | some valuePatch => insertEntry key valuePatch patch
      | none => patch := by
  rw [createMergePatchEntry, patchOf]
  cases previous.bind (·.lookup key) with
  | none => rfl
  | some previousValue =>
    rfl

theorem lookup_createMergePatchEntries {current} (h : SortedEntries.Ascending current)
    (previous : Option (List (String × Value))) (patch : List (String × Value)) (key : String) :
    (createMergePatchEntries previous patch current).lookup key =
      match (current.lookup key).bind (patchOf previous key) with
      | some valuePatch => some valuePatch
      | none => patch.lookup key := by
  induction current generalizing patch with
  | nil => rfl
  | cons entry current ih =>
    obtain ⟨k, value⟩ := entry
    obtain ⟨hfirst, hrest⟩ := List.pairwise_cons.1 h
    rw [createMergePatchEntries, ih hrest, createMergePatchEntry_eq, SortedEntries.lookup_cons]
    by_cases hk : key = k
    · subst hk
      rw [SortedEntries.lookup_of_lt hfirst, if_pos rfl, Option.bind_some]
      cases patchOf previous key value with
      | none => rfl
      | some valuePatch => exact (lookup_insertEntry ..).trans (if_pos rfl)
    · rw [if_neg hk]
      cases patchOf previous k value with
      | none => rfl
      | some valuePatch =>
        rw [lookup_insertEntry, if_neg hk]

theorem ascending_createMergePatchEntries (previous : Option (List (String × Value))) (current : List (String × Value))
    {patch} (h : SortedEntries.Ascending patch) :
    SortedEntries.Ascending (createMergePatchEntries previous patch current) := by
  induction current generalizing patch with
  | nil => exact h
  | cons entry current ih =>
    refine ih ?_
    rw [createMergePatchEntry_eq]
    split
    · rw [insertEntry_eq]
      exact SortedEntries.ascending_insert h ..
    · exact h

/-- **A patch takes the previous value to the current one.** -/
theorem applyMergePatchValue_createMergePatch (hprevious : previous.Clean)
    (hcurrent : current.Clean) (h : createMergePatch previous current = some patch) :
    applyMergePatchValue previous patch = current := by
  induction hcurrent generalizing previous patch with
  | @atom current hatom =>
    obtain rfl := createMergePatch_atom hatom h
    cases patch with
    | object entries => exact absurd rfl (hatom entries)
    | _ => rfl
  | @object current ascending notNull nested ih =>
    obtain rfl := createMergePatch_object h
    have hbase : ∃ base, SortedEntries.Ascending base ∧ previous.asObject.getD [] = base ∧
        (∀ patch, applyMergePatchValue previous (.object patch) = .object (applyMergePatchEntries base patch)) ∧
        ∀ entry ∈ base, entry.2.Clean := by
      cases hprevious with
      | @atom previous hatom =>
        refine ⟨[], .nil, ?_, fun patch => ?_, fun _ h => absurd h List.not_mem_nil⟩
        · cases previous with
          | object entries => exact absurd rfl (hatom entries)
          | _ => rfl
        · cases previous with
          | object entries => exact absurd rfl (hatom entries)
          | _ => rfl
      | @object base ascending notNull nested => exact ⟨base, ascending, rfl, fun _ => rfl, nested⟩
    obtain ⟨base, hascending, hgetD, happly, hclean⟩ := hbase
    have hbind (key : String) : previous.asObject.bind (·.lookup key) = base.lookup key := by
      rw [← hgetD]
      cases previous.asObject with
      | none => rfl
      | some entries => rfl
    rw [happly, hgetD, Value.object.injEq]
    refine SortedEntries.ext_lookup (ascending_applyMergePatchEntries _ hascending) ascending fun key => ?_
    rw [lookup_applyMergePatchEntries (ascending_createMergePatchEntries _ _ (ascending_removedKeys ..)),
      lookup_createMergePatchEntries ascending, lookup_removedKeys]
    cases hvalue : current.lookup key with
    | none =>
      -- A key that is gone has a null in the patch.
      cases hold : base.lookup key with
      | none =>
        have hmem : key ∉ base.map Prod.fst := by
          intro hmem
          obtain ⟨entry, hentry, rfl⟩ := List.mem_map.1 hmem
          rw [SortedEntries.lookup_of_mem hascending hentry] at hold
          cases hold
        rw [if_neg fun h => hmem h.1]
        rfl
      | some old =>
        rw [if_pos ⟨List.mem_map_of_mem (SortedEntries.mem_of_lookup hold), rfl⟩]
        rfl
    | some value =>
      have hmem := SortedEntries.mem_of_lookup hvalue
      have hnull := notNull _ hmem
      rw [Option.bind_some, patchOf, hbind]
      cases hold : base.lookup key with
      | none =>
        rw [patched, if_neg (ne_true_of_eq_false (Value.isNull_eq_false hnull))]
        exact congrArg some (applyMergePatchValue_null (nested _ hmem))
      | some old =>
        dsimp only
        cases hpatch : createMergePatch old value with
        | none =>
          rw [createMergePatch_eq_none_iff] at hpatch
          rw [hpatch]
          simp [patched]
        | some valuePatch =>
          have hne := createMergePatch_ne_null hpatch hnull
          rw [patched, if_neg (ne_true_of_eq_false (Value.isNull_eq_false hne))]
          exact congrArg some (ih _ hmem (hclean _ (SortedEntries.mem_of_lookup hold)) hpatch)

/-! ## Chains of snapshots -/

theorem applyMergePatch_of_mergePatchFrom {previous current : WorldState}
    (h : WorldStateSnapshot.mergePatchFrom current.snapshot previous.snapshot = some patch) :
    WorldStateSnapshot.applyMergePatch previous.snapshot patch = some current.snapshot := by
  unfold WorldStateSnapshot.applyMergePatch
  rw [applyMergePatchValue_createMergePatch previous.clean_snapshot current.clean_snapshot h]
  rfl

theorem mergePatchFrom_eq_none_iff {snapshot previous} :
    WorldStateSnapshot.mergePatchFrom snapshot previous = none ↔ snapshot = previous := by
  unfold WorldStateSnapshot.mergePatchFrom
  rw [createMergePatch_eq_none_iff]
  constructor
  · intro heq
    exact (Value.object.inj heq).symm
  · rintro rfl
    rfl

/-- A section that goes, a key that goes and a key that changes. -/
example : WorldStateSnapshot.mergePatchFrom [("kept", .object [("changed", .string "after"), ("same", .bool true)])]
    [("kept", .object [("changed", .string "before"), ("removed", .bool true), ("same", .bool true)]),
      ("removed_section", .bool true)] =
    some (.object [("kept", .object [("changed", .string "after"), ("removed", .null)]), ("removed_section", .null)]) := by
  decide +kernel

theorem replay_patches (previous : WorldState) (worlds : List WorldState) :
    ((worldStatePatches previous.snapshot (worlds.map WorldState.snapshot)).map some).foldl replayWorldState
        (some previous.snapshot) = some (worlds.getLastD previous).snapshot := by
  induction worlds generalizing previous with
  | nil => rfl
  | cons world worlds ih =>
    rw [List.map_cons, worldStatePatches, List.map_append, List.foldl_append, List.getLastD_cons, ← ih]
    congr 1
    cases hpatch : WorldStateSnapshot.mergePatchFrom world.snapshot previous.snapshot with
    | none =>
      rw [mergePatchFrom_eq_none_iff] at hpatch
      rw [hpatch]
      rfl
    | some patch => exact applyMergePatch_of_mergePatchFrom hpatch

theorem replay_records (first : WorldState) (worlds : List WorldState) :
    ((worldStateRecords first.snapshot (worlds.map WorldState.snapshot)).map some).foldl replayWorldState none =
      some (worlds.getLastD first).snapshot :=
  replay_patches first worlds

section
variable (E : Externals)

theorem scan_worldStates {s : ReplayState} (h : s.baseReplacementHistory = none) {segment : ActiveReplaySegment}
    (hsegment : s.activeSegment = some segment) (newer : List RolloutItem) (records : List WorldStateItem) :
    s.scan E newer (records.map .worldState) =
      s.setSegment { segment with worldStateReplay := segment.worldStateReplay ++ records.map some } := by
  induction records generalizing s segment newer with
  | nil =>
    cases s
    cases hsegment
    rw [List.map_nil, List.map_nil, List.append_nil]
    rfl
  | cons record records ih =>
    have hobserve : s.observe E (.worldState record) newer =
        s.setSegment { segment with worldStateReplay := segment.worldStateReplay ++ [some record] } := by
      show s.setSegment (s.getSegment.record E (.worldState record)) = _
      rw [ReplayState.getSegment, hsegment]
      rfl
    have hopen : (s.observe E (.worldState record) newer).isResolved = false := by
      show (s.baseReplacementHistory.isSome && _ && _) = false
      rw [h]
      rfl
    rw [List.map_cons, ReplayState.scan, hopen, if_neg Bool.false_ne_true, hobserve,
      ih (s := s.setSegment { segment with worldStateReplay := segment.worldStateReplay ++ [some record] }) h rfl,
      List.append_assoc]
    rfl

theorem worldStateReplay_scanRollout (records : List WorldStateItem) :
    (scanRollout E (records.map .worldState)).worldStateReplay = (records.map some).reverse := by
  rw [scanRollout, ← List.map_reverse, ← List.map_reverse]
  cases records.reverse with
  | nil => rfl
  | cons record older =>
    -- The first record seen opens the segment.
    have hopened : ({ rolloutSuffix := records.map .worldState } : ReplayState).scan E []
          ((record :: older).map .worldState) =
        (({ rolloutSuffix := records.map .worldState } : ReplayState).setSegment {}).scan E []
          ((record :: older).map .worldState) := rfl
    have hscan := @scan_worldStates E (({ rolloutSuffix := records.map .worldState } : ReplayState).setSegment {}) rfl {} rfl
    rw [hopened, hscan]
    rfl

end

/-- **Replaying world-state records restores the last snapshot.** A patch is recorded unless the snapshots are
equal, and it can be applied to the one before it. -/
theorem reconstruct_worldStateRecords (E : Externals) (first : WorldState) (worlds : List WorldState) :
    (reconstructHistoryFromRollout E ((worldStateRecords first.snapshot (worlds.map WorldState.snapshot)).map
        .worldState)).worldStateBaseline = some (worlds.getLastD first).snapshot ∧
      ∀ previous current : WorldState,
        (WorldStateSnapshot.mergePatchFrom current.snapshot previous.snapshot = none ↔
          current.snapshot = previous.snapshot) ∧
        ∀ patch, WorldStateSnapshot.mergePatchFrom current.snapshot previous.snapshot = some patch →
          WorldStateSnapshot.applyMergePatch previous.snapshot patch = some current.snapshot := by
  refine ⟨?_, fun previous current => ⟨mergePatchFrom_eq_none_iff, fun patch h => applyMergePatch_of_mergePatchFrom h⟩⟩
  rw [← replay_records first worlds]
  show (scanRollout E _).worldStateReplay.reverse.foldl replayWorldState none = _
  rw [worldStateReplay_scanRollout, List.reverse_reverse]

end Codex
