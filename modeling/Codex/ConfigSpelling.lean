/-
What the normalisers do to a table. They look at the keys only; with no two keys
of one canonical form, what they leave has distinct keys, each in its canonical
form where bringing a key into it once is enough (`Settled`), and a table of such
keys they leave as it is (`normalizeAt_of_settled`).
-/
import Codex.ConfigCanonical

namespace Codex.ConfigMerge

open NetworkProxy (Libraries normalizeHost)
open OrderedTables

variable {Hook : Type} {L : Libraries Hook} {toLowercase : Text → Text}

/-! ## Legacy names -/

section

variable {α β : Type} (a : ConfigKeyAlias) (table : List (Text × α))

theorem get_applyAlias (hne : a.legacyKey ≠ a.canonicalKey) (key : Text) :
    get (applyAlias a.tablePath table a) key =
      if key = a.legacyKey then none
      else if key = a.canonicalKey then (get table a.canonicalKey).or (get table a.legacyKey)
      else get table key := by
  unfold applyAlias
  rw [if_pos rfl]
  cases hlegacy : get table a.legacyKey with
  | none =>
    by_cases hkey : key = a.legacyKey
    · rw [if_pos hkey, hkey, hlegacy]
    rw [if_neg hkey]
    by_cases hcanonical : key = a.canonicalKey
    · rw [if_pos hcanonical, Option.or_none, hcanonical]
    · rw [if_neg hcanonical]
  | some value =>
    unfold orInsert
    rw [get_remove, if_neg hne]
    cases hcanonical : get table a.canonicalKey with
    | none =>
      rw [get_insert, get_remove]
      grind
    | some _ =>
      rw [get_remove]
      grind

theorem mapValues_applyAlias (g : α → β) (path : Path) :
    mapValues (fun _ => g) (applyAlias path table a) = applyAlias path (mapValues (fun _ => g) table) a := by
  unfold applyAlias
  split
  next =>
    rw [get_mapValues]
    cases get table a.legacyKey with
    | none => rfl
    | some value =>
      dsimp only [Option.map_some]
      rw [mapValues_orInsert, mapValues_remove]
  next => rfl

variable {table}

theorem nodup_orInsert (h : (table.map Prod.fst).Nodup) (key : Text) (value : α) :
    ((orInsert table key value).map Prod.fst).Nodup := by
  unfold orInsert
  split
  next => exact h
  next => exact nodup_insert h key value

theorem nodup_applyAlias (h : (table.map Prod.fst).Nodup) (path : Path) :
    ((applyAlias path table a).map Prod.fst).Nodup := by
  unfold applyAlias
  split
  next =>
    split
    next => exact nodup_orInsert (nodup_remove h _) _ _
    next => exact h
  next => exact h

theorem mem_applyAlias {path : Path} {key : Text} {value : α} (h : (key, value) ∈ applyAlias path table a) :
    ∃ key, (key, value) ∈ table := by
  unfold applyAlias at h
  split at h
  next =>
    split at h
    next legacy hlegacy =>
      unfold orInsert at h
      split at h
      next => exact ⟨key, List.mem_of_mem_filter h⟩
      next =>
        rcases mem_insert h with heq | hin
        · injection heq with hkey hvalue
          exact ⟨a.legacyKey, hvalue ▸ mem_of_get hlegacy⟩
        · exact ⟨key, List.mem_of_mem_filter hin⟩
    next => exact ⟨key, h⟩
  next => exact ⟨key, h⟩

end

theorem memories_legacy_ne : memoriesAlias.legacyKey ≠ memoriesAlias.canonicalKey := by decide

theorem agents_legacy_ne : agentsAlias.legacyKey ≠ agentsAlias.canonicalKey := by decide

/-! ## The normalisers -/

variable {place : Place}

theorem child_of_renaming (h : place = .memories ∨ place = .agents ∨ place = .domains ∨ place = .filters)
    (key : Text) : place.child key = .other := by
  rcases h with rfl | rfl | rfl | rfl <;> rfl

/-- The code's normalisers do not look at the values; what is done with these may depend on their place. -/
theorem mapValues_normalizeAt {α β : Type} (place : Place) (g : Text → α → β)
    (hg : ∀ key key', place.child key = place.child key' → g key = g key') (table : List (Text × α)) :
    mapValues g (normalizeAt L toLowercase place table) = normalizeAt L toLowercase place (mapValues g table) := by
  have hconst : (∀ key, place.child key = .other) → g = fun _ => g [] := by
    intro h
    funext key
    exact hg _ _ ((h key).trans (h []).symm)
  cases place with
  | memories =>
    rw [hconst (child_of_renaming (by decide))]
    exact mapValues_applyAlias memoriesAlias table _ _
  | agents =>
    rw [hconst (child_of_renaming (by decide))]
    exact mapValues_applyAlias agentsAlias table _ _
  | domains =>
    rw [hconst (child_of_renaming (by decide))]
    exact mapValues_rekey _ table _
  | filters =>
    rw [hconst (child_of_renaming (by decide))]
    exact mapValues_rekey _ table _
  | root | permissions | profile | network | policy | other => rfl

theorem mem_normalizeAt {α : Type} {table} {key : Text} {value : α}
    (h : (key, value) ∈ normalizeAt L toLowercase place table) :
    ∃ key', (key', value) ∈ table ∧ place.child key' = place.child key := by
  cases place with
  | memories =>
    obtain ⟨key', hin⟩ := mem_applyAlias _ h
    exact ⟨key', hin, rfl⟩
  | agents =>
    obtain ⟨key', hin⟩ := mem_applyAlias _ h
    exact ⟨key', hin, rfl⟩
  | domains =>
    obtain ⟨key', -, hin⟩ := mem_rekey h
    exact ⟨key', hin, rfl⟩
  | filters =>
    obtain ⟨key', -, hin⟩ := mem_rekey h
    exact ⟨key', hin, rfl⟩
  | root | permissions | profile | network | policy | other => exact ⟨key, h, rfl⟩

theorem nodup_normalizeAt {α : Type} {table : List (Text × α)}
    (h : ((table.map Prod.fst).map (canonicalKey L toLowercase place)).Nodup) :
    ((normalizeAt L toLowercase place table).map Prod.fst).Nodup := by
  have hkeys := List.Nodup.of_map _ h
  cases place with
  | memories => exact nodup_applyAlias _ hkeys _
  | agents => exact nodup_applyAlias _ hkeys _
  | domains =>
    have hrekey : rekey (normalizeHost L) table = renamed (normalizeHost L) table := rekey_of_nodup h
    show ((rekey (normalizeHost L) table).map Prod.fst).Nodup
    rw [hrekey, keys_renamed]
    exact h
  | filters =>
    have hrekey : rekey toLowercase table = renamed toLowercase table := rekey_of_nodup h
    show ((rekey toLowercase table).map Prod.fst).Nodup
    rw [hrekey, keys_renamed]
    exact h
  | root | permissions | profile | network | policy | other => exact hkeys

variable (L toLowercase) in
/-- Bringing a key into its canonical form once is enough. -/
def Settled (place : Place) (key : Text) : Prop :=
  canonicalKey L toLowercase place (canonicalKey L toLowercase place key) = canonicalKey L toLowercase place key

theorem rename_rename {a : ConfigKeyAlias} (hne : a.legacyKey ≠ a.canonicalKey) (key : Text) :
    (if (if key = a.legacyKey then a.canonicalKey else key) = a.legacyKey then a.canonicalKey
      else if key = a.legacyKey then a.canonicalKey else key) = if key = a.legacyKey then a.canonicalKey else key := by
  by_cases h : key = a.legacyKey
  · rw [if_pos h, if_neg hne.symm]
  · rw [if_neg h, if_neg h]

theorem settled_of_ne_domains (hlower : ∀ s, toLowercase (toLowercase s) = toLowercase s)
    (h : place ≠ .domains) (key : Text) : Settled L toLowercase place key := by
  cases place with
  | memories => exact rename_rename memories_legacy_ne key
  | agents => exact rename_rename agents_legacy_ne key
  | domains => exact absurd rfl h
  | filters => exact hlower key
  | root | permissions | profile | network | policy | other => rfl

theorem not_mem_applyAlias {α : Type} {a} (hne : a.legacyKey ≠ a.canonicalKey) (table : List (Text × α)) :
    a.legacyKey ∉ (applyAlias a.tablePath table a).map Prod.fst := by
  rw [← get_eq_none_iff, get_applyAlias a table hne, if_pos rfl]

theorem canonicalKey_of_mem {α : Type} {table : List (Text × α)}
    (h : ∀ key ∈ table.map Prod.fst, Settled L toLowercase place key) {key : Text}
    (hkey : key ∈ (normalizeAt L toLowercase place table).map Prod.fst) : canonicalKey L toLowercase place key = key := by
  cases place with
  | memories =>
    refine if_neg ?_
    rintro rfl
    exact not_mem_applyAlias memories_legacy_ne table hkey
  | agents =>
    refine if_neg ?_
    rintro rfl
    exact not_mem_applyAlias agents_legacy_ne table hkey
  | domains =>
    obtain ⟨entry, hentry, rfl⟩ := List.mem_map.1 hkey
    obtain ⟨key, heq, hin⟩ := mem_rekey hentry
    rw [heq]
    exact h key (List.mem_map_of_mem hin)
  | filters =>
    obtain ⟨entry, hentry, rfl⟩ := List.mem_map.1 hkey
    obtain ⟨key, heq, hin⟩ := mem_rekey hentry
    rw [heq]
    exact h key (List.mem_map_of_mem hin)
  | root | permissions | profile | network | policy | other => rfl

theorem renamed_of_canonical {α : Type} {f : Text → Text} {table : List (Text × α)}
    (h : ∀ key ∈ table.map Prod.fst, f key = key) : renamed f table = table := by
  conv_rhs => rw [← List.map_id table]
  exact List.map_congr_left fun entry hentry => Prod.ext (h _ (List.mem_map_of_mem hentry)) rfl

theorem applyAlias_of_not_mem {α : Type} {a : ConfigKeyAlias} {table : List (Text × α)}
    (h : a.legacyKey ∉ table.map Prod.fst) (path : Path) : applyAlias path table a = table := by
  unfold applyAlias
  rw [get_eq_none_iff.2 h]
  exact ite_self _

/-- A table whose keys are distinct and in their canonical form is left as it is. -/
theorem normalizeAt_of_canonical {α : Type} {table : List (Text × α)} (hnodup : (table.map Prod.fst).Nodup)
    (h : ∀ key ∈ table.map Prod.fst, canonicalKey L toLowercase place key = key) :
    normalizeAt L toLowercase place table = table := by
  have hrekey : ∀ {f : Text → Text}, (∀ key ∈ table.map Prod.fst, f key = key) → rekey f table = table := by
    intro f hf
    rw [rekey_of_nodup, renamed_of_canonical hf]
    rwa [List.map_congr_left hf, List.map_id']
  cases place with
  | memories =>
    refine applyAlias_of_not_mem (fun hin => ?_) _
    exact memories_legacy_ne ((if_pos rfl).symm.trans (h _ hin)).symm
  | agents =>
    refine applyAlias_of_not_mem (fun hin => ?_) _
    exact agents_legacy_ne ((if_pos rfl).symm.trans (h _ hin)).symm
  | domains => exact hrekey h
  | filters => exact hrekey h
  | root | permissions | profile | network | policy | other => rfl

/-! ## Tables -/

theorem canonicalEntries_eq (place : Place) (entries : List (Text × TomlValue)) :
    canonicalEntries L toLowercase place entries =
      mapValues (fun key value => canonical L toLowercase (place.child key) value) entries := by
  induction entries with
  | nil => rfl
  | cons entry entries ih =>
    rw [canonicalEntries, ih]
    rfl

theorem normalizedEntries_eq (path : Path) (entries : List (Text × TomlValue)) :
    normalizedEntries path entries = mapValues (fun key value => normalizedWithKeyAliases (path ++ [key]) value) entries := by
  induction entries with
  | nil => rfl
  | cons entry entries ih =>
    rw [normalizedEntries, ih]
    rfl

theorem overlays_eq (entries : List (Text × TomlValue)) :
    overlays L toLowercase entries =
      mapValues (fun _ value => { value, mergeInto := mergeTomlValuesAtPath L toLowercase value }) entries := by
  induction entries with
  | nil => rfl
  | cons entry entries ih =>
    rw [overlays, ih]
    rfl

theorem canonicalEntries_normalizeAt (place : Place) (entries : List (Text × TomlValue)) :
    normalizeAt L toLowercase place (canonicalEntries L toLowercase place entries) =
      canonicalEntries L toLowercase place (normalizeAt L toLowercase place entries) := by
  rw [canonicalEntries_eq, canonicalEntries_eq, mapValues_normalizeAt]
  intro key key' h
  rw [h]

variable (L toLowercase) in
/-- What a table says of a key. -/
def canonicalTable (place : Place) (entries : List (Text × TomlValue)) (key : Text) : Config :=
  ((get (normalizeAt L toLowercase place entries) key).map (canonical L toLowercase (place.child key))).getD .absent

theorem canonical_table (place : Place) (entries : List (Text × TomlValue)) :
    canonical L toLowercase place (.table entries) = .table (canonicalTable L toLowercase place entries) := by
  rw [canonical]
  congr 1
  funext key
  rw [canonicalEntries_normalizeAt, canonicalEntries_eq, get_mapValues]
  rfl

theorem canonical_isPresent (place : Place) (value : TomlValue) : (canonical L toLowercase place value).isPresent = true := by
  cases value with
  | scalar s => rfl
  | array items => rw [canonical]; rfl
  | table entries => rw [canonical]; rfl

theorem isPresent_getD (place : Place) (value : Option TomlValue) :
    ((value.map (canonical L toLowercase place)).getD .absent).isPresent = value.isSome := by
  cases value with
  | none => rfl
  | some value => exact canonical_isPresent place value

theorem canonicalTable_isPresent (place : Place) (entries : List (Text × TomlValue)) (key : Text) :
    (canonicalTable L toLowercase place entries key).isPresent = (get (normalizeAt L toLowercase place entries) key).isSome :=
  isPresent_getD _ _

/-! ## Subtrees put in whole -/

theorem canonicalEntries_aliasAt (place : Place) (entries : List (Text × TomlValue)) :
    canonicalEntries L toLowercase place (normalizeAt L toLowercase place (aliasAt place entries)) =
      canonicalEntries L toLowercase place (normalizeAt L toLowercase place entries) := by
  cases place with
  | memories =>
    exact congrArg _ (applyAlias_of_not_mem (not_mem_applyAlias memories_legacy_ne entries) _)
  | agents =>
    exact congrArg _ (applyAlias_of_not_mem (not_mem_applyAlias agents_legacy_ne entries) _)
  | root | permissions | profile | network | domains | policy | filters | other => rfl

mutual

theorem canonical_normalized (path : Path) : ∀ value : TomlValue,
    canonical L toLowercase (placeOf path) (normalizedWithKeyAliases path value) = canonical L toLowercase (placeOf path) value
  | .scalar _ => rfl
  | .array items => by
    rw [normalizedWithKeyAliases, canonical, canonical, canonicalItems_normalized path items]
  | .table entries => by
    rw [normalizedWithKeyAliases, canonical, canonical, normalizeKeyAliases_eq, canonicalEntries_normalizeAt,
      canonicalEntries_aliasAt, ← canonicalEntries_normalizeAt, canonicalEntries_normalized path entries]

theorem canonicalItems_normalized (path : Path) : ∀ items : List TomlValue,
    canonicalItems L toLowercase (placeOf path) (normalizedItems path items) = canonicalItems L toLowercase (placeOf path) items
  | [] => rfl
  | item :: items => by
    rw [normalizedItems, canonicalItems, canonicalItems, canonical_normalized path item, canonicalItems_normalized path items]

theorem canonicalEntries_normalized (path : Path) : ∀ entries : List (Text × TomlValue),
    canonicalEntries L toLowercase (placeOf path) (normalizedEntries path entries) =
      canonicalEntries L toLowercase (placeOf path) entries
  | [] => rfl
  | (key, child) :: entries => by
    rw [normalizedEntries, canonicalEntries, canonicalEntries, canonicalEntries_normalized path entries, ← placeOf_concat,
      canonical_normalized (path ++ [key]) child]

end

/-! ## One spelling a key -/

/-- Distinct spellings stay distinct when the legacy names are replaced. -/
theorem nodup_canonical_aliasAt {α : Type} (hlower : ∀ s, toLowercase (toLowercase s) = toLowercase s)
    {table : List (Text × α)} (h : ((table.map Prod.fst).map (canonicalKey L toLowercase place)).Nodup) :
    (((aliasAt place table).map Prod.fst).map (canonicalKey L toLowercase place)).Nodup := by
  have hrenamed : place ≠ .domains → aliasAt place table = normalizeAt L toLowercase place table →
      (((aliasAt place table).map Prod.fst).map (canonicalKey L toLowercase place)).Nodup := by
    intro hplace heq
    rw [heq, List.map_congr_left fun key hkey =>
      canonicalKey_of_mem (fun key _ => settled_of_ne_domains hlower hplace key) hkey, List.map_id']
    exact nodup_normalizeAt h
  cases place with
  | memories => exact hrenamed nofun rfl
  | agents => exact hrenamed nofun rfl
  | root | permissions | profile | network | domains | policy | filters | other => exact h

theorem mem_aliasAt {α : Type} {table} {key : Text} {value : α}
    (h : (key, value) ∈ aliasAt place table) : ∃ key', (key', value) ∈ table ∧ place.child key' = place.child key := by
  cases place with
  | memories =>
    obtain ⟨key', hin⟩ := mem_applyAlias _ h
    exact ⟨key', hin, rfl⟩
  | agents =>
    obtain ⟨key', hin⟩ := mem_applyAlias _ h
    exact ⟨key', hin, rfl⟩
  | root | permissions | profile | network | domains | policy | filters | other => exact ⟨key, h, rfl⟩

theorem distinct_normalized (hlower : ∀ s, toLowercase (toLowercase s) = toLowercase s) {value : TomlValue}
    (h : Distinct L toLowercase place value) {path : Path} (hpath : placeOf path = place) :
    Distinct L toLowercase place (normalizedWithKeyAliases path value) := by
  induction h generalizing path with
  | scalar place s =>
    exact .scalar place s
  | array place items =>
    exact .array place _
  | table place entries keys values ih =>
    rw [normalizedWithKeyAliases, normalizeKeyAliases_eq, normalizedEntries_eq, hpath]
    refine .table place _ (nodup_canonical_aliasAt hlower ?_) ?_
    · rw [keys_mapValues]
      exact keys
    · intro key value hin
      obtain ⟨key', hin, hchild⟩ := mem_aliasAt hin
      obtain ⟨entry, hentry, heq⟩ := List.mem_map.1 hin
      injection heq with hkey hvalue
      rw [← hchild, ← hkey, ← hvalue]
      exact ih entry.1 entry.2 hentry (by rw [placeOf_concat, hpath])

end Codex.ConfigMerge
