/-
One layer over what is merged so far, against the plain union. A table of the
result has, key by key, what the layer's table and the base's table have for the
key, these in their canonical spelling (`get_mergedTable`).
-/
import Codex.ConfigSpelling

namespace Codex.ConfigMerge

open NetworkProxy (Libraries normalizeHost)
open OrderedTables
open ShellEnvironmentPolicyFilterRepresentation (fromPolicy)

variable {Hook : Type} {L : Libraries Hook} {toLowercase : Text → Text}

/-! ## The loop over a layer's entries -/

/-- The value an entry of the layer leaves under its key. -/
def Overlay.put (overlay : Overlay) (path : Path) : (existing : Option TomlValue) → TomlValue
  | some existing => overlay.mergeInto existing path
  | none => normalizedWithKeyAliases path overlay.value

theorem mergeEntries_cons (path : Path) (base : List (Text × TomlValue)) (key : Text) (overlay : Overlay)
    (overlays : List (Text × Overlay)) :
    mergeEntries path base ((key, overlay) :: overlays) =
      mergeEntries path (insert base key (overlay.put (path ++ [key]) (get base key))) overlays := by
  unfold mergeEntries
  rw [List.foldl_cons]
  cases get base key with
  | none => rfl
  | some existing => rfl

theorem get_mergeEntries (path : Path) {base overlays} (h : (overlays.map Prod.fst).Nodup) (key : Text) :
    get (mergeEntries path base overlays) key =
      ((get overlays key).map fun (overlay : Overlay) => overlay.put (path ++ [key]) (get base key)).or (get base key) := by
  induction overlays generalizing base with
  | nil => rfl
  | cons entry overlays ih =>
    obtain ⟨first, overlay⟩ := entry
    rw [List.map_cons, List.nodup_cons] at h
    rw [mergeEntries_cons, ih h.2, get_insert, OrderedTables.get]
    by_cases hkey : first = key
    · subst hkey
      rw [if_pos rfl, if_pos rfl, get_eq_none_iff.2 h.1]
      rfl
    · rw [if_neg hkey, if_neg hkey]

theorem nodup_mergeEntries (path : Path) {base} (h : (base.map Prod.fst).Nodup)
    (overlays : List (Text × Overlay)) : ((mergeEntries path base overlays).map Prod.fst).Nodup := by
  induction overlays generalizing base with
  | nil => exact h
  | cons entry overlays ih =>
    rw [mergeEntries_cons]
    exact ih (nodup_insert h _ _)

/-! ## Two tables that meet -/

/-- What is left of the base's table when the layer selects a representation of the filters. -/
def keptTable (place : Place) (overlay base : List (Text × TomlValue)) : List (Text × TomlValue) :=
  if place = .policy then
    match fromPolicy (.table overlay) with
    | some representation => representation.displacedFields.foldl remove base
    | none => base
  else base

theorem replace_table (path : Path) (overlay base : List (Text × TomlValue)) :
    replaceShellEnvironmentPolicyFilterRepresentation (.table base) (.table overlay) path =
      .table (keptTable (placeOf path) overlay base) := by
  unfold replaceShellEnvironmentPolicyFilterRepresentation keptTable
  by_cases h : placeOf path = .policy
  · rw [if_pos h, if_pos (isShellEnvironmentPolicyPath_iff.2 h)]
    cases fromPolicy (.table overlay) with
    | none => rfl
    | some representation => rfl
  · rw [if_neg h, if_neg (mt isShellEnvironmentPolicyPath_iff.1 h)]

variable (L toLowercase) in
/-- The keys of the base's table, and what it has for them. -/
def baseTable (place : Place) (overlay base : List (Text × TomlValue)) : List (Text × TomlValue) :=
  normalizeAt L toLowercase place (keptTable place overlay base)

variable (L toLowercase) in
def mergedTable (path : Path) (overlay base : List (Text × TomlValue)) : List (Text × TomlValue) :=
  mergeEntries path (baseTable L toLowercase (placeOf path) overlay base)
    (normalizeAt L toLowercase (placeOf path) (overlays L toLowercase overlay))

theorem merge_table (path : Path) (overlay base : List (Text × TomlValue)) :
    mergeTomlValuesAtPath L toLowercase (.table overlay) (.table base) path =
      .table (mergedTable L toLowercase path overlay base) := by
  rw [mergeTomlValuesAtPath, replace_table]
  dsimp only
  rw [normalizeKeys_eq, normalizeKeys_eq]
  rfl

variable (L toLowercase) in
/-- The value of a key that the layer has. -/
def putValue (path : Path) (overlay : TomlValue) (existing : Option TomlValue) : TomlValue :=
  match existing with
  | some existing => mergeTomlValuesAtPath L toLowercase overlay existing path
  | none => normalizedWithKeyAliases path overlay

variable {path : Path} {overlay base : List (Text × TomlValue)}

theorem normalizeAt_overlays (place : Place) (overlay : List (Text × TomlValue)) :
    normalizeAt L toLowercase place (overlays L toLowercase overlay) =
      overlays L toLowercase (normalizeAt L toLowercase place overlay) := by
  rw [overlays_eq, overlays_eq]
  exact (mapValues_normalizeAt place _ (fun _ _ _ => rfl) overlay).symm

/-- **Key by key, the merged table has what the two tables have for the key.** -/
theorem get_mergedTable (h : ((overlay.map Prod.fst).map (canonicalKey L toLowercase (placeOf path))).Nodup) (key : Text) :
    get (mergedTable L toLowercase path overlay base) key =
      ((get (normalizeAt L toLowercase (placeOf path) overlay) key).map fun value =>
        putValue L toLowercase (path ++ [key]) value (get (baseTable L toLowercase (placeOf path) overlay base) key)).or
      (get (baseTable L toLowercase (placeOf path) overlay base) key) := by
  unfold mergedTable
  have hnodup : ((normalizeAt L toLowercase (placeOf path) (overlays L toLowercase overlay)).map Prod.fst).Nodup := by
    rw [normalizeAt_overlays, overlays_eq, keys_mapValues]
    exact nodup_normalizeAt h
  rw [get_mergeEntries path hnodup, normalizeAt_overlays, overlays_eq, get_mapValues, Option.map_map]
  rfl

variable {key : Text} {place : Place} {value : TomlValue}

theorem mem_mergedTable (h : ((overlay.map Prod.fst).map (canonicalKey L toLowercase (placeOf path))).Nodup) :
    key ∈ (mergedTable L toLowercase path overlay base).map Prod.fst ↔
      key ∈ (normalizeAt L toLowercase (placeOf path) overlay).map Prod.fst ∨
        key ∈ (baseTable L toLowercase (placeOf path) overlay base).map Prod.fst := by
  rw [← get_isSome_iff, ← get_isSome_iff, ← get_isSome_iff, get_mergedTable h, Option.isSome_or, Option.isSome_map,
    Bool.or_eq_true]

/-! ## The base's table -/

theorem sublist_keptTable (place : Place) (overlay base : List (Text × TomlValue)) :
    (keptTable place overlay base).Sublist base := by
  have hfold : ∀ (fields : List Text) (table : List (Text × TomlValue)), (fields.foldl remove table).Sublist table := by
    intro fields
    induction fields with
    | nil => exact fun table => .refl table
    | cons field fields ih => exact fun table => (ih (remove table field)).trans List.filter_sublist
  unfold keptTable
  split
  next =>
    split
    next => exact hfold _ base
    next => exact .refl base
  next => exact .refl base

theorem nodup_keptTable (h : ((base.map Prod.fst).map (canonicalKey L toLowercase place)).Nodup)
    (overlay : List (Text × TomlValue)) :
    (((keptTable place overlay base).map Prod.fst).map (canonicalKey L toLowercase place)).Nodup :=
  h.sublist (((sublist_keptTable place overlay base).map _).map _)

theorem keptTable_of_ne (h : place ≠ .policy) (overlay base : List (Text × TomlValue)) :
    keptTable place overlay base = base := if_neg h

theorem get_remove_two (table : List (Text × TomlValue)) (a b key : Text) :
    get (remove (remove table a) b) key = if key = a ∨ key = b then none else get table key := by
  rw [get_remove, get_remove]
  grind

/-- The representation that the layer selects displaces the base's. -/
theorem get_keptTable (overlay base : List (Text × TomlValue)) (key : Text) :
    get (keptTable .policy overlay base) key =
      if (get overlay "filters".toList).isSome then
        if key = "exclude".toList ∨ key = "include_only".toList then none else get base key
      else if (get overlay "exclude".toList).isSome || (get overlay "include_only".toList).isSome then
        if key = "filters".toList then none else get base key
      else get base key := by
  unfold keptTable fromPolicy
  rw [if_pos rfl]
  dsimp only
  by_cases hfilters : (get overlay "filters".toList).isSome
  · rw [if_pos hfilters, if_pos hfilters]
    exact get_remove_two base _ _ key
  rw [if_neg hfilters, if_neg hfilters]
  by_cases hlegacy : ((get overlay "exclude".toList).isSome || (get overlay "include_only".toList).isSome) = true
  · rw [if_pos hlegacy, if_pos hlegacy]
    exact (get_remove base _ key).trans (if_congr eq_comm rfl rfl)
  · rw [if_neg hlegacy, if_neg hlegacy]

variable (L toLowercase) in
theorem displaced_canonical (place : Place) (overlay base : List (Text × TomlValue)) (key : Text) :
    displaced place (canonicalTable L toLowercase place overlay) (canonicalTable L toLowercase place base) key =
      ((get (baseTable L toLowercase place overlay base) key).map (canonical L toLowercase (place.child key))).getD .absent := by
  unfold displaced
  by_cases h : place = .policy
  · subst h
    rw [if_pos rfl, canonicalTable_isPresent, canonicalTable_isPresent, canonicalTable_isPresent]
    have hbase : baseTable L toLowercase .policy overlay base = keptTable .policy overlay base := rfl
    rw [hbase, get_keptTable]
    unfold canonicalTable normalizeAt
    dsimp only
    split
    next => split <;> rfl
    next =>
      split
      next => split <;> rfl
      next => rfl
  · rw [if_neg h]
    unfold baseTable
    rw [keptTable_of_ne h]
    rfl

/-! ## Settled hosts -/

def valueAt : Path → TomlValue → Option TomlValue
  | [], value => some value
  | key :: path, .table entries => (get entries key).bind (valueAt path)
  | _ :: _, _ => none

variable (L) in
/-- Below a place: the hosts of two network tables that meet are settled by one normalisation. -/
def HostsSettledFrom (place : Place) (overlay base : TomlValue) : Prop :=
  ∀ path : Path, path.foldl Place.child place = .domains →
    ∀ overlayTable baseTable, valueAt path overlay = some (.table overlayTable) → valueAt path base = some (.table baseTable) →
      ∀ host ∈ overlayTable.map Prod.fst ++ baseTable.map Prod.fst, normalizeHost L (normalizeHost L host) = normalizeHost L host

theorem foldl_other (path : Path) : path.foldl Place.child .other = .other := by
  induction path with
  | nil => rfl
  | cons key path ih => exact ih

theorem foldl_filters (path : Path) : path.foldl Place.child .filters ≠ .domains := by
  intro h
  cases path with
  | nil => cases h
  | cons key path =>
    rw [List.foldl_cons, Place.child, foldl_other] at h
    cases h

variable (L toLowercase) in
/-- On the way to the network tables the normalisers do nothing, and nothing is displaced. -/
theorem baseTable_of_leads {place : Place} {key : Text} {path : Path}
    (h : path.foldl Place.child (place.child key) = .domains) (overlay base : List (Text × TomlValue)) :
    baseTable L toLowercase place overlay base = base ∧ normalizeAt L toLowercase place overlay = overlay := by
  cases place with
  | root | permissions | profile | network => exact ⟨rfl, rfl⟩
  | memories | agents | domains | filters | other =>
    rw [Place.child, foldl_other] at h
    cases h
  | policy =>
    rw [Place.child] at h
    split at h
    next => exact absurd h (foldl_filters path)
    next =>
      rw [foldl_other] at h
      cases h

theorem HostsSettledFrom.child (h : HostsSettledFrom L place (.table overlay) (.table base))
    {existing} (hvalue : get (normalizeAt L toLowercase place overlay) key = some value)
    (hexisting : get (baseTable L toLowercase place overlay base) key = some existing) :
    HostsSettledFrom L (place.child key) value existing := by
  intro path hpath overlayTable baseTable hoverlay hbase
  obtain ⟨hkept, hsame⟩ := baseTable_of_leads L toLowercase hpath overlay base
  rw [hsame] at hvalue
  rw [hkept] at hexisting
  refine h (key :: path) hpath overlayTable baseTable ?_ ?_
  · rw [valueAt, hvalue]
    exact hoverlay
  · rw [valueAt, hexisting]
    exact hbase

theorem HostsSettledFrom.settled (hlower : ∀ s, toLowercase (toLowercase s) = toLowercase s)
    (h : HostsSettledFrom L place (.table overlay) (.table base))
    (hkey : key ∈ overlay.map Prod.fst ∨ key ∈ base.map Prod.fst) : Settled L toLowercase place key := by
  by_cases hplace : place = .domains
  · subst hplace
    exact h [] rfl overlay base rfl rfl key (List.mem_append.2 hkey)
  · exact settled_of_ne_domains hlower hplace key

/-! ## The merge is the union -/

theorem overlay_absent (value : Config) (place : Place) : value.overlay .absent place = value := by
  cases value <;> rfl

theorem overlay_isPresent (overlay base : Config) (place : Place) :
    (overlay.overlay base place).isPresent = (overlay.isPresent || base.isPresent) := by
  cases overlay with
  | absent => rfl
  | scalar s => rfl
  | array items => rfl
  | table g => cases base <;> rfl

variable (L toLowercase) in
/-- The law of the merge. -/
def IsUnion (path : Path) (overlay base : TomlValue) : Prop :=
  canonical L toLowercase (placeOf path) (mergeTomlValuesAtPath L toLowercase overlay base path) =
    Config.overlay (canonical L toLowercase (placeOf path) overlay) (canonical L toLowercase (placeOf path) base) (placeOf path)

theorem distinct_of_get {table}
    (h : ∀ key value, (key, value) ∈ table → Distinct L toLowercase (place.child key) value)
    (hget : get (normalizeAt L toLowercase place table) key = some value) : Distinct L toLowercase (place.child key) value := by
  obtain ⟨key', hin, hchild⟩ := mem_normalizeAt (mem_of_get hget)
  rw [← hchild]
  exact h key' value hin

theorem nodup_mergedTable (hbase : ((base.map Prod.fst).map (canonicalKey L toLowercase (placeOf path))).Nodup) :
    ((mergedTable L toLowercase path overlay base).map Prod.fst).Nodup :=
  nodup_mergeEntries path (nodup_normalizeAt (nodup_keptTable hbase overlay)) _

theorem canonical_mergedTable
    (hoverlay : ((overlay.map Prod.fst).map (canonicalKey L toLowercase (placeOf path))).Nodup)
    (hsettled : ∀ key, key ∈ overlay.map Prod.fst ∨ key ∈ base.map Prod.fst → Settled L toLowercase (placeOf path) key)
    (hkey : key ∈ (mergedTable L toLowercase path overlay base).map Prod.fst) :
    canonicalKey L toLowercase (placeOf path) key = key := by
  rcases (mem_mergedTable hoverlay).1 hkey with hin | hin
  · exact canonicalKey_of_mem (fun key h => hsettled key (.inl h)) hin
  · refine canonicalKey_of_mem (fun key h => hsettled key (.inr ?_)) hin
    exact ((sublist_keptTable (placeOf path) overlay base).map Prod.fst).subset h

/-- One entry of the merged table, where what is below is merged as it should be. -/
theorem canonical_putValue {existing}
    (h : ∀ e, existing = some e → IsUnion L toLowercase (path ++ [key]) value e) :
    canonical L toLowercase ((placeOf path).child key) (putValue L toLowercase (path ++ [key]) value existing) =
      Config.overlay (canonical L toLowercase ((placeOf path).child key) value)
        ((existing.map (canonical L toLowercase ((placeOf path).child key))).getD .absent) ((placeOf path).child key) := by
  rw [← placeOf_concat]
  cases existing with
  | none =>
    rw [putValue, canonical_normalized]
    exact (overlay_absent _ _).symm
  | some e => exact h e rfl

/-- Tables whose merge has canonical keys, and whose entries are merged as they should be. -/
theorem isUnion_table (hoverlay : ((overlay.map Prod.fst).map (canonicalKey L toLowercase (placeOf path))).Nodup)
    (hmerged : normalizeAt L toLowercase (placeOf path) (mergedTable L toLowercase path overlay base) =
      mergedTable L toLowercase path overlay base)
    (hvalues : ∀ key value existing, get (normalizeAt L toLowercase (placeOf path) overlay) key = some value →
      get (baseTable L toLowercase (placeOf path) overlay base) key = some existing →
        IsUnion L toLowercase (path ++ [key]) value existing) :
    IsUnion L toLowercase path (.table overlay) (.table base) := by
  unfold IsUnion
  rw [merge_table, canonical_table, canonical_table, canonical_table]
  congr 1
  funext key
  rw [displaced_canonical, canonicalTable, hmerged, get_mergedTable hoverlay, canonicalTable]
  cases hvalue : get (normalizeAt L toLowercase (placeOf path) overlay) key with
  | none => rfl
  | some value => exact canonical_putValue (hvalues key value · hvalue)

theorem merge_whole (hlower : ∀ s, toLowercase (toLowercase s) = toLowercase s) {overlay base}
    (ho : Distinct L toLowercase (placeOf path) overlay)
    (hmerge : mergeTomlValuesAtPath L toLowercase overlay base path = normalizedWithKeyAliases path overlay)
    (hoverlay : Config.overlay (canonical L toLowercase (placeOf path) overlay) (canonical L toLowercase (placeOf path) base)
      (placeOf path) = canonical L toLowercase (placeOf path) overlay) :
    IsUnion L toLowercase path overlay base ∧
      Distinct L toLowercase (placeOf path) (mergeTomlValuesAtPath L toLowercase overlay base path) := by
  rw [IsUnion, hmerge, canonical_normalized, hoverlay]
  exact ⟨rfl, distinct_normalized hlower ho rfl⟩

theorem replace_of_not_table (base : TomlValue) (h : ∀ entries, base ≠ .table entries) (overlay : TomlValue) (path : Path) :
    replaceShellEnvironmentPolicyFilterRepresentation base overlay path = base := by
  unfold replaceShellEnvironmentPolicyFilterRepresentation
  split
  next =>
    split
    next entries _ => exact absurd rfl (h entries)
    next => rfl
  next => rfl

/-- **Where the hosts that meet are settled, the merge of two layers is their union,
and again has one spelling a key.** -/
theorem merge_of_settled (hlower : ∀ s, toLowercase (toLowercase s) = toLowercase s) {overlay}
    (ho : Distinct L toLowercase place overlay) (hpath : placeOf path = place) {base}
    (hb : Distinct L toLowercase place base) (hhosts : HostsSettledFrom L place overlay base) :
    IsUnion L toLowercase path overlay base ∧
      Distinct L toLowercase place (mergeTomlValuesAtPath L toLowercase overlay base path) := by
  induction ho generalizing path base with
  | scalar place s =>
    subst hpath
    refine merge_whole hlower (.scalar _ s) ?_ rfl
    rw [mergeTomlValuesAtPath]
    exact nofun
  | array place items =>
    subst hpath
    refine merge_whole hlower (.array _ items) ?_ rfl
    rw [mergeTomlValuesAtPath]
    exact nofun
  | table place overlay keys values ih =>
    subst hpath
    cases hb with
    | scalar _ s =>
      refine merge_whole hlower (.table _ overlay keys values) ?_ ?_
      · rw [mergeTomlValuesAtPath, replace_of_not_table (.scalar s) nofun]
      · rw [canonical_table, canonical]
        rfl
    | array _ items =>
      refine merge_whole hlower (.table _ overlay keys values) ?_ ?_
      · rw [mergeTomlValuesAtPath, replace_of_not_table (.array items) nofun]
      · rw [canonical_table, canonical]
        rfl
    | table _ base hkeys hvalues =>
      have hnodup : ((mergedTable L toLowercase path overlay base).map Prod.fst).Nodup := nodup_mergedTable hkeys
      have hcanonical : ∀ key ∈ (mergedTable L toLowercase path overlay base).map Prod.fst,
          canonicalKey L toLowercase (placeOf path) key = key := fun key hkey =>
        canonical_mergedTable keys (fun key => hhosts.settled hlower) hkey
      have hexisting : ∀ {key existing}, get (baseTable L toLowercase (placeOf path) overlay base) key = some existing →
          Distinct L toLowercase ((placeOf path).child key) existing := fun hget =>
        distinct_of_get (fun key value hin => hvalues key value ((sublist_keptTable _ _ _).subset hin)) hget
      -- The values below are merged into what is there under their canonical key.
      have hput : ∀ {key value existing}, get (normalizeAt L toLowercase (placeOf path) overlay) key = some value →
          get (baseTable L toLowercase (placeOf path) overlay base) key = some existing →
          IsUnion L toLowercase (path ++ [key]) value existing ∧ Distinct L toLowercase ((placeOf path).child key)
            (mergeTomlValuesAtPath L toLowercase value existing (path ++ [key])) := by
        intro key value existing hvalue hget
        obtain ⟨key', hin, hchild⟩ := mem_normalizeAt (mem_of_get hvalue)
        rw [← hchild]
        refine ih key' value hin ?_ ?_ ?_
        · rw [placeOf_concat, hchild]
        · rw [hchild]
          exact hexisting hget
        · rw [hchild]
          exact hhosts.child hvalue hget
      refine ⟨isUnion_table keys (normalizeAt_of_canonical hnodup hcanonical) fun key value existing h h' => (hput h h').1, ?_⟩
      rw [merge_table]
      refine .table _ _ ?_ fun key value hin => ?_
      · rw [List.map_congr_left hcanonical, List.map_id']
        exact hnodup
      · have hget := get_of_mem hnodup hin
        rw [get_mergedTable keys] at hget
        cases hvalue : get (normalizeAt L toLowercase (placeOf path) overlay) key with
        | none =>
          rw [hvalue] at hget
          exact hexisting hget
        | some new =>
          rw [hvalue] at hget
          obtain rfl := Option.some.inj hget
          cases hold : get (baseTable L toLowercase (placeOf path) overlay base) key with
          | none => exact distinct_normalized hlower (distinct_of_get values hvalue) (placeOf_concat path key)
          | some existing => exact (hput hvalue hold).2

end Codex.ConfigMerge
