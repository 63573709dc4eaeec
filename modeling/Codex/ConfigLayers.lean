/-
Layer over layer. Canonicalising what the layers are merged to is the union of the
canonicalised layers throughout a run of the merge exactly where every two network
tables that meet have hosts that one normalisation settles (`union_iff_hosts_settled`).

Two spellings that one pass of `normalize_host` keeps apart may meet later, and a lower
layer's rule take the place of a higher one's.
-/
import Codex.ConfigUnion
import Codex.Lib.Runs
import Codex.NetworkPolicyFacts
import Mathlib.Algebra.Order.BigOperators.Group.Finset

namespace Codex.ConfigMerge

open NetworkProxy
open Text (splitOnce splitOnce_eq trim trimStart trimEnd)
open OrderedTables
open Runs

variable {Hook : Type} {L : Libraries Hook} {toLowercase : Text → Text}

/-! ## Hosts and their lengths -/

/-- What covers a finite set and makes none of its elements bigger keeps the size of each. -/
theorem size_of_subset_image {α : Type*} [DecidableEq α] {s : Finset α} {f : α → α} (size : α → Nat)
    (hsize : ∀ a ∈ s, size (f a) ≤ size a) (hs : s ⊆ s.image f) {a : α} (ha : a ∈ s) : size (f a) = size a := by
  have himage : s = s.image f := Finset.eq_of_subset_of_card_le hs Finset.card_image_le
  have hinj : Set.InjOn f s := Finset.card_image_iff.1 (congrArg Finset.card himage).symm
  have hsum : ∑ a ∈ s, size (f a) = ∑ a ∈ s, size a := by
    conv_rhs => rw [himage]
    exact (Finset.sum_image hinj).symm
  exact (Finset.sum_eq_sum_iff_of_le hsize).1 hsum a ha

theorem normalizeIpLiteral_length {host ip : Text} (h : normalizeIpLiteral L host = some ip) :
    ip = host ∨ ip.length < host.length := by
  have hscoped : ∀ {delimiter}, scopedIpLiteral L host delimiter = some ip →
      ∃ before after, host = before ++ delimiter ++ after ∧ ip = before ++ '%' :: after := by
    intro delimiter h
    unfold scopedIpLiteral at h
    split at h
    next => cases h
    next before after hsplit =>
      split at h
      next => exact ⟨before, after, splitOnce_eq hsplit, (Option.some.inj h).symm⟩
      next => cases h
  unfold normalizeIpLiteral at h
  split at h
  next => exact .inl (Option.some.inj h).symm
  next =>
    rcases Option.or_eq_some_iff.1 h with h | ⟨-, h⟩
    · obtain ⟨before, after, rfl, rfl⟩ := hscoped h
      simp only [List.length_append, List.length_cons, List.length_nil]
      omega
    · obtain ⟨before, after, rfl, rfl⟩ := hscoped h
      exact .inl (List.append_assoc before ['%'] after).symm

theorem normalizeDnsHostOrIpLiteral_length (host : Text) :
    normalizeDnsHostOrIpLiteral L host = toAsciiLowercase host ∨
      (normalizeDnsHostOrIpLiteral L host).length < host.length := by
  have hlength : (toAsciiLowercase host).length = host.length := List.length_map _
  have htrim : (trimEndDots (toAsciiLowercase host)).Sublist (toAsciiLowercase host) := (List.rdropWhile_prefix _ _).sublist
  have hip : normalizeDnsHostOrIpLiteral L host = trimEndDots (toAsciiLowercase host) ∨
      (normalizeDnsHostOrIpLiteral L host).length < (trimEndDots (toAsciiLowercase host)).length := by
    unfold normalizeDnsHostOrIpLiteral
    dsimp only
    cases h : normalizeIpLiteral L (trimEndDots (toAsciiLowercase host)) with
    | none => exact .inl rfl
    | some ip => exact normalizeIpLiteral_length h
  rcases hip with h | h
  · rw [h]
    rcases htrim.length_le.lt_or_eq with hlt | heq
    · exact .inr (hlength ▸ hlt)
    · exact .inl (htrim.eq_of_length heq)
  · exact .inr (hlength ▸ h.trans_le htrim.length_le)

theorem normalizeHost_length (host : Text) :
    normalizeHost L host = toAsciiLowercase host ∨ (normalizeHost L host).length < host.length := by
  have hpart : ∃ part : Text, part.Sublist host ∧ normalizeHost L host = normalizeDnsHostOrIpLiteral L part := by
    have htrim : (trim host).Sublist host := (List.rdropWhile_prefix _ _).sublist.trans (List.dropWhile_sublist _)
    unfold normalizeHost
    dsimp only
    split
    next => exact ⟨_, ((List.takeWhile_sublist _).trans (List.drop_sublist _ _)).trans htrim, rfl⟩
    next =>
      split
      next => exact ⟨_, (List.takeWhile_sublist _).trans htrim, rfl⟩
      next => exact ⟨_, htrim, rfl⟩
  obtain ⟨part, hsub, heq⟩ := hpart
  rw [heq]
  rcases normalizeDnsHostOrIpLiteral_length (L := L) part with h | h
  · rcases hsub.length_le.lt_or_eq with hlt | hlen
    · exact .inr (by rwa [h, toAsciiLowercase, List.length_map])
    · rw [hsub.eq_of_length hlen] at h ⊢
      exact .inl h
  · exact .inr (h.trans_le hsub.length_le)

/-- A finite set of hosts that normalising covers is left as it is, host by host. -/
theorem normalizeHost_fixed {hosts : Finset Text} (h : hosts ⊆ hosts.image (normalizeHost L)) {host : Text}
    (hhost : host ∈ hosts) : normalizeHost L host = host := by
  obtain ⟨source, hsource, rfl⟩ := Finset.mem_image.1 (h hhost)
  have hsize := size_of_subset_image List.length (fun host _ => ?_) h hsource
  · rcases normalizeHost_length (L := L) source with hlower | hlt
    · rw [hlower, normalizeHost_lowercase, hlower]
    · omega
  · rcases normalizeHost_length (L := L) host with hlower | hlt
    · rw [hlower, toAsciiLowercase, List.length_map]
    · exact hlt.le

/-! ## What the union needs -/

variable {path : Path} {overlay base : List (Text × TomlValue)}

/-- What two tables say of a key when their merge is their union. -/
theorem canonicalTable_of_isUnion (h : IsUnion L toLowercase path (.table overlay) (.table base)) (key : Text) :
    canonicalTable L toLowercase (placeOf path) (mergedTable L toLowercase path overlay base) key =
      Config.overlay (canonicalTable L toLowercase (placeOf path) overlay key)
        (((get (baseTable L toLowercase (placeOf path) overlay base) key).map
          (canonical L toLowercase ((placeOf path).child key))).getD .absent) ((placeOf path).child key) := by
  unfold IsUnion at h
  rw [merge_table, canonical_table, canonical_table, canonical_table] at h
  rw [← displaced_canonical]
  exact congrFun (Config.table.inj h) key

theorem mem_rekeyed {table : List (Text × TomlValue)} (h : ((table.map Prod.fst).map (normalizeHost L)).Nodup) {host : Text}
    (hhost : host ∈ table.map Prod.fst) : normalizeHost L host ∈ (rekey (normalizeHost L) table).map Prod.fst := by
  rw [rekey_of_nodup h, keys_renamed]
  exact List.mem_map_of_mem hhost

theorem settled_of_isUnion (hplace : placeOf path = .domains) (hoverlay : ((overlay.map Prod.fst).map (normalizeHost L)).Nodup)
    (hbase : ((base.map Prod.fst).map (normalizeHost L)).Nodup) (h : IsUnion L toLowercase path (.table overlay) (.table base))
    {host : Text} (hhost : host ∈ overlay.map Prod.fst ++ base.map Prod.fst) :
    normalizeHost L (normalizeHost L host) = normalizeHost L host := by
  have hkeys : ((overlay.map Prod.fst).map (canonicalKey L toLowercase (placeOf path))).Nodup := by
    rw [hplace]
    exact hoverlay
  have hmem : ∀ key, key ∈ (mergedTable L toLowercase path overlay base).map Prod.fst ↔
      key ∈ (normalizeAt L toLowercase (placeOf path) overlay).map Prod.fst ∨
        key ∈ (baseTable L toLowercase (placeOf path) overlay base).map Prod.fst := fun key => mem_mergedTable hkeys
  have hunion := canonicalTable_of_isUnion h
  rw [hplace] at hmem hunion
  -- Every host of the merged table is what a host of it is normalised to.
  have hcovered : ((mergedTable L toLowercase path overlay base).map Prod.fst).toFinset ⊆
      (((mergedTable L toLowercase path overlay base).map Prod.fst).toFinset).image (normalizeHost L) := by
    intro key hkey
    rw [List.mem_toFinset, hmem] at hkey
    have hpresent := congrArg Config.isPresent (hunion key)
    rw [overlay_isPresent, canonicalTable_isPresent, canonicalTable_isPresent, isPresent_getD] at hpresent
    have hin : key ∈ (rekey (normalizeHost L) (mergedTable L toLowercase path overlay base)).map Prod.fst := by
      rw [← get_isSome_iff]
      refine hpresent.trans (Bool.or_eq_true_iff.2 ?_)
      rwa [get_isSome_iff, get_isSome_iff]
    obtain ⟨entry, hentry, rfl⟩ := List.mem_map.1 hin
    obtain ⟨host, heq, hin⟩ := mem_rekey hentry
    exact Finset.mem_image.2 ⟨host, List.mem_toFinset.2 (List.mem_map_of_mem hin), heq.symm⟩
  refine normalizeHost_fixed hcovered (List.mem_toFinset.2 ((hmem _).2 ?_))
  exact (List.mem_append.1 hhost).imp (mem_rekeyed hoverlay) (mem_rekeyed hbase)

/-- A union, seen one key down, on the way to the network tables. -/
theorem isUnion_child {key : Text} {rest : Path} (hleads : rest.foldl Place.child ((placeOf path).child key) = .domains)
    (hoverlay : ((overlay.map Prod.fst).map (canonicalKey L toLowercase (placeOf path))).Nodup)
    (h : IsUnion L toLowercase path (.table overlay) (.table base)) {value existing}
    (hvalue : get overlay key = some value) (hexisting : get base key = some existing) :
    IsUnion L toLowercase (path ++ [key]) value existing := by
  obtain ⟨hkept, hsame⟩ := baseTable_of_leads L toLowercase hleads overlay base
  have hmerged := (baseTable_of_leads L toLowercase hleads (mergedTable L toLowercase path overlay base) []).2
  have hunion := canonicalTable_of_isUnion h key
  rw [canonicalTable, canonicalTable, hmerged, hsame, get_mergedTable hoverlay, hkept, hsame, hvalue, hexisting] at hunion
  unfold IsUnion
  rw [placeOf_concat]
  exact hunion

/-- **The merge of two layers is their union only where the hosts that meet are settled.** -/
theorem hostsSettled_of_isUnion {overlay base} (ho : Distinct L toLowercase (placeOf path) overlay)
    (hb : Distinct L toLowercase (placeOf path) base) (h : IsUnion L toLowercase path overlay base) :
    HostsSettledFrom L (placeOf path) overlay base := by
  intro rest
  induction rest generalizing path overlay base with
  | nil =>
    rintro hplace overlayTable baseTable hoverlay hbase
    obtain rfl := Option.some.inj hoverlay
    obtain rfl := Option.some.inj hbase
    rw [List.foldl_nil] at hplace
    cases ho with
    | table _ _ hokeys _ =>
      cases hb with
      | table _ _ hbkeys _ =>
        rw [hplace] at hokeys hbkeys
        exact fun host => settled_of_isUnion hplace hokeys hbkeys h
  | cons key rest ih =>
    intro hleads overlayTable baseTable hoverlay hbase
    cases ho with
    | scalar => cases hoverlay
    | array => cases hoverlay
    | table _ overlay hokeys hovalues =>
      cases hb with
      | scalar => cases hbase
      | array => cases hbase
      | table _ base hbkeys hbvalues =>
        obtain ⟨value, hvalue, hoverlay⟩ := Option.bind_eq_some_iff.1 hoverlay
        obtain ⟨existing, hexisting, hbase⟩ := Option.bind_eq_some_iff.1 hbase
        have hchild := isUnion_child hleads hokeys h hvalue hexisting
        have hovalue := hovalues key value (mem_of_get hvalue)
        have hbvalue := hbvalues key existing (mem_of_get hexisting)
        rw [List.foldl_cons] at hleads
        rw [← placeOf_concat] at hovalue hbvalue hleads
        exact ih hovalue hbvalue hchild hleads _ _ hoverlay hbase

/-! ## Layers -/

variable (L toLowercase)

/-- A layer in which no table has two keys with one canonical form. -/
def Layer : Type := { layer : TomlValue // Distinct L toLowercase .root layer }

/-- What the layers so far are merged to, and the union of their canonical forms. -/
structure Layers where
  merged : TomlValue
  union : Config

def noLayers : Layers where
  merged := .table []
  union := .table fun _ => .absent

def addLayer (s : Layers) (layer : Layer L toLowercase) : Layers where
  merged := mergeTomlValues L toLowercase s.merged layer.1
  union := Config.overlay (canonical L toLowercase .root layer.1) s.union .root

/-- What is merged says what the union says. -/
def Lawful (s : Layers) : Prop := canonical L toLowercase .root s.merged = s.union

/-- The hosts of two network tables that meet are settled by one normalisation. -/
def HostsSettled (overlay base : TomlValue) : Prop :=
  ∀ path, isPermissionNetworkDomainsPath path = true →
    ∀ overlayTable baseTable, valueAt path overlay = some (.table overlayTable) → valueAt path base = some (.table baseTable) →
      ∀ host ∈ overlayTable.map Prod.fst ++ baseTable.map Prod.fst, normalizeHost L (normalizeHost L host) = normalizeHost L host

variable {L toLowercase}

theorem hostsSettled_iff {overlay base} : HostsSettled L overlay base ↔ HostsSettledFrom L .root overlay base :=
  forall_congr' fun _ => imp_congr_left isPermissionNetworkDomainsPath_iff

theorem lawful_noLayers : Lawful L toLowercase noLayers := by
  rfl

theorem distinct_noLayers : Distinct L toLowercase .root noLayers.merged := .table .root [] .nil nofun

/-- **Canonicalising what the layers are merged to is the union of the canonicalised
layers, at every layer, exactly where the hosts that meet are settled.** -/
theorem union_iff_hosts_settled (hlower : ∀ s, toLowercase (toLowercase s) = toLowercase s)
    (layers : List (Layer L toLowercase)) :
    Always (addLayer L toLowercase) (Lawful L toLowercase) noLayers layers ↔
      Along (addLayer L toLowercase) (fun s layer => HostsSettled L layer.1 s.merged) noLayers layers := by
  refine always_iff_along_of_invariant (I := fun s => Distinct L toLowercase .root s.merged) ?_ ?_ distinct_noLayers
    lawful_noLayers layers
  · rintro s ⟨layer, hlayer⟩ hs hlawful
    rw [hostsSettled_iff]
    have hunion : Lawful L toLowercase (addLayer L toLowercase s ⟨layer, hlayer⟩) ↔ IsUnion L toLowercase [] layer s.merged := by
      unfold IsUnion addLayer
      rw [← hlawful]
      exact Iff.rfl
    rw [hunion]
    constructor
    · intro h
      exact show HostsSettledFrom L (placeOf []) layer s.merged from hostsSettled_of_isUnion hlayer hs h
    · exact fun h => (merge_of_settled hlower hlayer rfl hs h).1
  · rintro s ⟨layer, hlayer⟩ hs _ hsettled
    exact (merge_of_settled hlower hlayer rfl hs (hostsSettled_iff.1 hsettled)).2

/-! ## A rule for a host -/

def hostPath (host : Text) : Path := ["permissions".toList, "work".toList, "network".toList, "domains".toList, host]

/-- A layer with one rule for a host. -/
def hostLayer (host rule : Text) : TomlValue :=
  (hostPath host).foldr (fun key value => .table [(key, value)]) (.scalar (.string rule))

theorem distinct_single {place} {key : Text} {value} (h : Distinct L toLowercase (place.child key) value) :
    Distinct L toLowercase place (.table [(key, value)]) := by
  refine .table place _ (List.nodup_singleton _) fun key' value' hin => ?_
  cases List.mem_singleton.1 hin
  exact h

theorem distinct_hostLayer (host rule : Text) : Distinct L toLowercase .root (hostLayer host rule) :=
  distinct_single (distinct_single (distinct_single (distinct_single (distinct_single (.scalar _ _)))))

def hostRule (host rule : Text) : Layer plainLibraries toAsciiLowercase := ⟨hostLayer host rule, distinct_hostLayer host rule⟩

theorem valueAt_hostLayer {path : Path} (hpath : isPermissionNetworkDomainsPath path = true) {host rule : Text}
    {table} (h : valueAt path (hostLayer host rule) = some (.table table)) :
    table.map Prod.fst = [host] := by
  obtain ⟨profile, rfl⟩ := placeOf_eq_domains.1 (isPermissionNetworkDomainsPath_iff.1 hpath)
  by_cases hprofile : "work".toList = profile
  · subst hprofile
    cases h
    rfl
  · change (if "work".toList = profile then some _ else none).bind _ = _ at h
    rw [if_neg hprofile] at h
    cases h

/-- Two spellings of one host. -/
theorem union_of_two_spellings :
    Always (addLayer plainLibraries toAsciiLowercase) (Lawful plainLibraries toAsciiLowercase) noLayers
      [hostRule "Example.com:443".toList "deny".toList, hostRule "example.com".toList "allow".toList] := by
  refine (union_iff_hosts_settled toAsciiLowercase_idem _).2 ⟨?_, ?_, trivial⟩
  · intro path hpath overlayTable baseTable _ hbase
    obtain ⟨profile, rfl⟩ := placeOf_eq_domains.1 (isPermissionNetworkDomainsPath_iff.1 hpath)
    cases hbase
  · intro path hpath overlayTable baseTable hoverlay hbase host hhost
    have hlower : valueAt path (hostLayer "Example.com:443".toList "deny".toList) = some (.table baseTable) := hbase
    rw [valueAt_hostLayer hpath hoverlay, valueAt_hostLayer hpath hlower] at hhost
    rcases List.mem_cons.1 hhost with rfl | hhost
    · decide
    · rw [List.mem_singleton.1 hhost]
      decide

/-! ## A rule that is lost -/

def Config.scalarAt : Path → Config → Option TomlScalar
  | [], .scalar s => some s
  | key :: path, .table f => Config.scalarAt path (f key)
  | _, _ => none

/-- A host spelt with blanks between its final dots, of which each pass drops some. -/
def lostRuleLayers : List (Layer plainLibraries toAsciiLowercase) :=
  [hostRule "a".toList "deny".toList, hostRule "a . .".toList "deny".toList, hostRule "a".toList "allow".toList,
    hostRule "b".toList "allow".toList]

/-- The rule of the highest layer for a host does not always stand. -/
theorem not_always_union : ¬ ∀ layers : List (Layer plainLibraries toAsciiLowercase),
    Lawful plainLibraries toAsciiLowercase (run (addLayer plainLibraries toAsciiLowercase) noLayers layers) := by
  intro h
  have hrule := congrArg (Config.scalarAt (hostPath "a".toList)) (h lostRuleLayers)
  have hmerged : Config.scalarAt (hostPath "a".toList) (canonical plainLibraries toAsciiLowercase .root
      (run (addLayer plainLibraries toAsciiLowercase) noLayers lostRuleLayers).merged) = some (.string "deny".toList) := by
    decide +kernel
  have hunion : Config.scalarAt (hostPath "a".toList)
      (run (addLayer plainLibraries toAsciiLowercase) noLayers lostRuleLayers).union = some (.string "allow".toList) := by
    decide +kernel
  rw [hmerged, hunion] at hrule
  exact absurd hrule (by decide)

end Codex.ConfigMerge
