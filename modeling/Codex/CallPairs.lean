/-
Calls paired with outputs. A call and an output belong together by a key, the family
of the call and its id: function calls and local shell calls are one family, as one kind of
output answers both. `normalizeHistory_eq` has the normalized history as the old one without
its orphans, a missing output behind each call.

Source: core/src/context_manager/normalize.rs, history.rs.
-/
import Codex.Lib.Splices
import Codex.Normalize

namespace Codex.Normalize

open Splices

/-! ## Keys -/

/-- Which outputs answer which calls. -/
inductive Family where
  | function
  | toolSearch
  | custom
  deriving DecidableEq

def callKey : Item → Option (Family × String)
  | .functionCall _ callId _ => some (.function, callId)
  | .localShellCall _ (some callId) _ => some (.function, callId)
  | .toolSearchCall _ (some callId) _ _ => some (.toolSearch, callId)
  | .customToolCall _ callId _ => some (.custom, callId)
  | _ => none

def outputKey : Item → Option (Family × String)
  | .functionCallOutput _ callId _ _ => some (.function, callId)
  | .toolSearchOutput _ (some callId) _ _ _ _ => some (.toolSearch, callId)
  | .customToolCallOutput _ callId _ _ _ => some (.custom, callId)
  | _ => none

/-- The server has searched itself. -/
def isServerOutput : Item → Bool
  | .toolSearchOutput _ _ _ execution _ _ => execution == "server"
  | _ => false

def callKeys (items : List Item) : List (Family × String) := items.filterMap callKey

def outputKeys (items : List Item) : List (Family × String) := items.filterMap outputKey

variable {item : Item} {key : Item → Option (Family × String)} {callId : String} {p : Item → Bool}
  {found first : Item} {rest : List Item}

theorem outputKey_of_callKey {key} (h : callKey item = some key) : outputKey item = none := by
  unfold callKey at h
  split at h <;> first | rfl | cases h

theorem mem_ids_iff {f : Item → Option String} {family : Family}
    (h : ∀ item callId, f item = some callId ↔ key item = some (family, callId)) {items : List Item} :
    callId ∈ items.filterMap f ↔ (family, callId) ∈ items.filterMap key := by
  rw [List.mem_filterMap, List.mem_filterMap]
  exact exists_congr fun item => and_congr_right fun _ => h item callId

def outputIds : Family → List Item → List String
  | .function => functionOutputIds
  | .toolSearch => toolSearchOutputIds
  | .custom => customToolOutputIds

theorem mem_outputIds (family : Family) {items : List Item} :
    callId ∈ outputIds family items ↔ (family, callId) ∈ outputKeys items := by
  cases family
  all_goals
    refine mem_ids_iff fun item callId => ?_
    cases item with
    | toolSearchOutput id callId => cases callId <;> simp [outputKey]
    | _ => simp [outputKey]

theorem mem_toolSearchCallIds {items : List Item} :
    callId ∈ toolSearchCallIds items ↔ (.toolSearch, callId) ∈ callKeys items := by
  refine mem_ids_iff fun item callId => ?_
  cases item with
  | localShellCall id callId | toolSearchCall id callId => cases callId <;> simp [callKey]
  | _ => simp [callKey]

theorem mem_customToolCallIds {items : List Item} :
    callId ∈ customToolCallIds items ↔ (.custom, callId) ∈ callKeys items := by
  refine mem_ids_iff fun item callId => ?_
  cases item with
  | localShellCall id callId | toolSearchCall id callId => cases callId <;> simp [callKey]
  | _ => simp [callKey]

theorem mem_functionOrShellCallIds {items} :
    callId ∈ functionCallIds items ∨ callId ∈ localShellCallIds items ↔ (.function, callId) ∈ callKeys items := by
  unfold functionCallIds localShellCallIds callKeys
  rw [List.mem_filterMap, List.mem_filterMap, List.mem_filterMap, ← exists_or]
  refine exists_congr fun item => ?_
  rw [← and_or_left]
  refine and_congr_right fun _ => ?_
  cases item with
  | localShellCall id callId | toolSearchCall id callId => cases callId <;> simp [callKey]
  | _ => simp [callKey]

/-! ## What the two passes do -/

/-- The output made for a call: it has the key of the call, is of the client and holds nothing to strip. -/
structure Answer (call output : Item) : Prop where
  key : outputKey output = callKey call
  client : isServerOutput output = false
  images : stripImages output = output
  audio : mapContent omitAudio omitOutputAudio output = output

/-- **What `missingOutput` makes**: an answer to a call whose key no output has, and nothing else. -/
theorem missingOutput_spec (uuidV5 : String → String) (items : List Item) (item : Item) :
    match callKey item with
    | none => missingOutput uuidV5 items item = none
    | some key =>
      if key ∈ outputKeys items then missingOutput uuidV5 items item = none
      else ∃ output, missingOutput uuidV5 items item = some output ∧ Answer item output := by
  have hanswer : ∀ {ids : List String} {family : Family} {callId : String} {output : Item},
      (callId ∈ ids ↔ (family, callId) ∈ outputKeys items) → Answer item output →
      if (family, callId) ∈ outputKeys items then (if callId ∈ ids then none else some output) = none
      else ∃ made, (if callId ∈ ids then none else some output) = some made ∧ Answer item made := by
    intro ids family callId output hids houtput
    by_cases hmem : callId ∈ ids
    · rw [if_pos (hids.1 hmem), if_pos hmem]
    · rw [if_neg fun hkey => hmem (hids.2 hkey), if_neg hmem]
      exact ⟨output, rfl, houtput⟩
  cases item with
  | functionCall id callId fields => exact hanswer (mem_outputIds .function) ⟨rfl, rfl, rfl, rfl⟩
  | customToolCall id callId fields => exact hanswer (mem_outputIds .custom) ⟨rfl, rfl, rfl, rfl⟩
  | localShellCall id callId fields =>
    cases callId with
    | none => rfl
    | some callId => exact hanswer (mem_outputIds .function) ⟨rfl, rfl, rfl, rfl⟩
  | toolSearchCall id callId execution fields =>
    cases callId with
    | none => rfl
    | some callId => exact hanswer (mem_outputIds .toolSearch) ⟨rfl, rfl, rfl, rfl⟩
  | _ => rfl

/-- **What is retained**: all but the outputs of the client whose key no call has. -/
theorem retained_iff {items} :
    retained items item = true ↔ isServerOutput item = true ∨ ∀ key, outputKey item = some key → key ∈ callKeys items := by
  cases item with
  | functionCallOutput id callId output metadata =>
    simp [retained, isServerOutput, outputKey, ← mem_functionOrShellCallIds]
  | customToolCallOutput id callId name output metadata =>
    simp [retained, isServerOutput, outputKey, ← mem_customToolCallIds]
  | toolSearchOutput id callId status execution tools metadata =>
    cases callId with
    | none => simp [retained, isServerOutput, outputKey]
    | some callId => simp [retained, isServerOutput, outputKey, ← mem_toolSearchCallIds]
  | _ => simp [retained, outputKey]

/-- Both strips of one item. -/
def stripItem (inputModalities : List InputModality) (item : Item) : Item :=
  let item := if InputModality.image ∈ inputModalities then item else stripImages item
  if InputModality.audio ∈ inputModalities then item else mapContent omitAudio omitOutputAudio item

section
variable {uuidV5 : String → String} {inputModalities : List InputModality} {items : List Item}

theorem strip_eq (inputModalities : List InputModality) (items : List Item) :
    stripAudioWhenUnsupported inputModalities (stripImagesWhenUnsupported inputModalities items) =
      items.map (stripItem inputModalities) := by
  unfold stripAudioWhenUnsupported stripImagesWhenUnsupported stripItem
  split <;> split <;> simp [Function.comp_def]

theorem keys_mapContent (f : ContentItem → ContentItem) (g : OutputContentItem → OutputContentItem) (item : Item) :
    callKey (mapContent f g item) = callKey item ∧ outputKey (mapContent f g item) = outputKey item ∧
      isServerOutput (mapContent f g item) = isServerOutput item := by
  cases item <;> exact ⟨rfl, rfl, rfl⟩

theorem keys_stripImages (item : Item) : callKey (stripImages item) = callKey item ∧
    outputKey (stripImages item) = outputKey item ∧ isServerOutput (stripImages item) = isServerOutput item := by
  cases item <;> exact ⟨rfl, rfl, rfl⟩

theorem keys_stripItem (inputModalities : List InputModality) (item : Item) :
    callKey (stripItem inputModalities item) = callKey item ∧ outputKey (stripItem inputModalities item) = outputKey item ∧
      isServerOutput (stripItem inputModalities item) = isServerOutput item := by
  obtain ⟨hcall, houtput, hserver⟩ := keys_stripImages item
  obtain ⟨hcall', houtput', hserver'⟩ := keys_mapContent omitAudio omitOutputAudio (stripImages item)
  unfold stripItem
  dsimp only
  split <;> split
  · exact ⟨rfl, rfl, rfl⟩
  · exact keys_stripImages item
  · exact keys_mapContent omitAudio omitOutputAudio item
  · exact ⟨hcall'.trans hcall, houtput'.trans houtput, hserver'.trans hserver⟩

theorem Answer.strip {call output : Item} (h : Answer call output) (inputModalities : List InputModality) :
    stripItem inputModalities output = output := by
  unfold stripItem
  dsimp only
  rw [h.images, ite_self, h.audio, ite_self]

theorem mapContentItems_mapContentItems {f g h : OutputContentItem → OutputContentItem} (hfg : ∀ item, f (g item) = h item)
    (output : OutputPayload) : (output.mapContentItems g).mapContentItems f = output.mapContentItems h := by
  obtain ⟨body, success⟩ := output
  cases body with
  | text content => rfl
  | contentItems items => simp [OutputPayload.mapContentItems, Function.comp_def, hfg]

theorem mapContent_mapContent {f f' f'' : ContentItem → ContentItem} {g g' g'' : OutputContentItem → OutputContentItem}
    (hf : ∀ item, f (f' item) = f'' item) (hg : ∀ item, g (g' item) = g'' item) (item : Item) :
    mapContent f g (mapContent f' g' item) = mapContent f'' g'' item := by
  cases item with
  | message content fields => simp [mapContent, Function.comp_def, hf]
  | functionCallOutput id callId output metadata => simp [mapContent, mapContentItems_mapContentItems hg]
  | customToolCallOutput id callId name output metadata => simp [mapContent, mapContentItems_mapContentItems hg]
  | _ => rfl

theorem stripImages_stripImages (item : Item) : stripImages (stripImages item) = stripImages item := by
  have hcontent : ∀ item, omitImage (omitImage item) = omitImage item := fun item => by cases item <;> rfl
  have houtput : ∀ item, omitOutputImage (omitOutputImage item) = omitOutputImage item := fun item => by cases item <;> rfl
  cases item with
  | message content fields => exact mapContent_mapContent hcontent houtput (.message content fields)
  | functionCallOutput id callId output metadata =>
    exact mapContent_mapContent hcontent houtput (.functionCallOutput id callId output metadata)
  | customToolCallOutput id callId name output metadata =>
    exact mapContent_mapContent hcontent houtput (.customToolCallOutput id callId name output metadata)
  | _ => rfl

theorem stripAudio_stripAudio (item : Item) :
    mapContent omitAudio omitOutputAudio (mapContent omitAudio omitOutputAudio item) =
      mapContent omitAudio omitOutputAudio item :=
  mapContent_mapContent (fun item => by cases item <;> rfl) (fun item => by cases item <;> rfl) item

/-- The placeholder of one kind is nothing of the other. -/
theorem stripImages_stripAudio (item : Item) :
    stripImages (mapContent omitAudio omitOutputAudio item) = mapContent omitAudio omitOutputAudio (stripImages item) := by
  have hcontent : ∀ item, omitImage (omitAudio item) = omitAudio (omitImage item) := fun item => by cases item <;> rfl
  have houtput : ∀ item, omitOutputImage (omitOutputAudio item) = omitOutputAudio (omitOutputImage item) :=
    fun item => by cases item <;> rfl
  have hboth : ∀ item, mapContent omitImage omitOutputImage (mapContent omitAudio omitOutputAudio item) =
      mapContent omitAudio omitOutputAudio (mapContent omitImage omitOutputImage item) := fun item =>
    (mapContent_mapContent hcontent houtput item).trans (mapContent_mapContent (fun _ => rfl) (fun _ => rfl) item).symm
  cases item with
  | message content fields => exact hboth (.message content fields)
  | functionCallOutput id callId output metadata => exact hboth (.functionCallOutput id callId output metadata)
  | customToolCallOutput id callId name output metadata =>
    exact hboth (.customToolCallOutput id callId name output metadata)
  | _ => rfl

/-- Stripping again changes nothing. -/
theorem stripItem_stripItem (inputModalities : List InputModality) (item : Item) :
    stripItem inputModalities (stripItem inputModalities item) = stripItem inputModalities item := by
  unfold stripItem
  dsimp only
  split <;> split
  · rfl
  · exact stripImages_stripImages item
  · exact stripAudio_stripAudio item
  · rw [stripImages_stripAudio, stripAudio_stripAudio, stripImages_stripImages]

/-! ## The normalized history -/

/-- `ensure_call_outputs_present`, item by item. -/
theorem ensureCallOutputsPresent_eq (uuidV5 : String → String) (items : List Item) :
    ensureCallOutputsPresent uuidV5 items = items.flatMap fun item => item :: (missingOutput uuidV5 items item).toList := by
  rw [ensureCallOutputsPresent, List.foldl_reverse]
  exact foldr_insertIdx (missingOutput uuidV5 items) items []

theorem missingOutput_eq_some {output : Item} (h : missingOutput uuidV5 items item = some output) :
    Answer item output ∧ ∃ key, callKey item = some key ∧ key ∉ outputKeys items := by
  have hspec := missingOutput_spec uuidV5 items item
  cases hkey : callKey item with
  | none =>
    rw [hkey] at hspec
    rw [hspec] at h
    cases h
  | some key =>
    rw [hkey] at hspec
    dsimp only at hspec
    by_cases hmem : key ∈ outputKeys items
    · rw [if_pos hmem] at hspec
      rw [hspec] at h
      cases h
    · rw [if_neg hmem] at hspec
      obtain ⟨made, hmade, hanswer⟩ := hspec
      rw [hmade] at h
      cases h
      exact ⟨hanswer, key, rfl, hmem⟩

theorem exists_missingOutput (uuidV5 : String → String) {key} (hkey : callKey item = some key)
    (hmem : key ∉ outputKeys items) : ∃ output, missingOutput uuidV5 items item = some output ∧ outputKey output = some key := by
  have hspec := missingOutput_spec uuidV5 items item
  rw [hkey] at hspec
  dsimp only at hspec
  rw [if_neg hmem] at hspec
  obtain ⟨output, houtput, hanswer⟩ := hspec
  exact ⟨output, houtput, hanswer.key.trans hkey⟩

theorem mem_callKeys_ensure {key} :
    key ∈ callKeys (ensureCallOutputsPresent uuidV5 items) ↔ key ∈ callKeys items := by
  rw [ensureCallOutputsPresent_eq]
  unfold callKeys
  simp only [List.mem_filterMap, List.mem_flatMap, List.mem_cons, Option.mem_toList]
  constructor
  · rintro ⟨found, ⟨item, hitem, rfl | hmade⟩, hkey⟩
    · exact ⟨found, hitem, hkey⟩
    · obtain ⟨hanswer, key', hcall, -⟩ := missingOutput_eq_some hmade
      have hnone := outputKey_of_callKey hkey
      rw [hanswer.key, hcall] at hnone
      cases hnone
  · rintro ⟨item, hitem, hkey⟩
    exact ⟨item, ⟨item, hitem, .inl rfl⟩, hkey⟩

theorem retained_ensure (item : Item) : retained (ensureCallOutputsPresent uuidV5 items) item = retained items item := by
  rw [Bool.eq_iff_iff, retained_iff, retained_iff]
  simp only [mem_callKeys_ensure]

theorem filter_flatMap_toList {f : Item → Option Item} {xs : List Item}
    (hmade : ∀ x ∈ xs, ∀ y, f x = some y → p x = true ∧ p y = true) :
    (xs.flatMap fun x => x :: (f x).toList).filter p = (xs.filter p).flatMap fun x => x :: (f x).toList := by
  induction xs with
  | nil => rfl
  | cons x xs ih =>
    obtain ⟨hx, hxs⟩ := List.forall_mem_cons.1 hmade
    rw [List.flatMap_cons, List.filter_append, ih hxs, List.filter_cons, List.filter_cons]
    cases hfx : f x with
    | none => cases p x <;> simp [hfx]
    | some y =>
      obtain ⟨hpx, hpy⟩ := hx y hfx
      simp [hfx, hpx, hpy]

/-- **The normalized history**: the items but the orphans, stripped, with the missing output behind each call. -/
theorem normalizeHistory_eq (uuidV5 : String → String) (inputModalities : List InputModality) (items : List Item) :
    normalizeHistory uuidV5 inputModalities items = (items.filter (retained items)).flatMap fun item =>
      stripItem inputModalities item :: (missingOutput uuidV5 items item).toList := by
  have hmade : ∀ x ∈ items, ∀ y, missingOutput uuidV5 items x = some y →
      retained items x = true ∧ retained items y = true := by
    intro x hx y hy
    obtain ⟨hanswer, key, hkey, -⟩ := missingOutput_eq_some hy
    have hmem : key ∈ callKeys items := List.mem_filterMap.2 ⟨x, hx, hkey⟩
    constructor
    · refine retained_iff.2 (.inr fun other hother => ?_)
      rw [outputKey_of_callKey hkey] at hother
      cases hother
    · refine retained_iff.2 (.inr fun other hother => ?_)
      rw [hanswer.key, hkey] at hother
      cases hother
      exact hmem
  unfold normalizeHistory removeOrphanOutputs
  rw [strip_eq, show retained (ensureCallOutputsPresent uuidV5 items) = retained items from funext retained_ensure,
    ensureCallOutputsPresent_eq, filter_flatMap_toList hmade, List.map_flatMap]
  refine List.flatMap_congr ?_
  intro item hitem
  rw [List.map_cons, List.cons.injEq]
  refine ⟨rfl, ?_⟩
  cases houtput : missingOutput uuidV5 items item with
  | none => rfl
  | some output => exact congrArg ([·]) ((missingOutput_eq_some houtput).1.strip inputModalities)

/-- Calls have an output of their key, and outputs of the client a call. -/
structure Paired (items : List Item) : Prop where
  calls : ∀ call ∈ items, ∀ key, callKey call = some key → ∃ output ∈ items, outputKey output = some key
  outputs : ∀ output ∈ items, isServerOutput output = false → ∀ key, outputKey output = some key →
    ∃ call ∈ items, callKey call = some key

/-- What stands in the normalized history: what is retained, and the outputs made for it. -/
theorem mem_normalizeHistory : found ∈ normalizeHistory uuidV5 inputModalities items ↔
    ∃ item ∈ items, retained items item = true ∧
      (found = stripItem inputModalities item ∨ missingOutput uuidV5 items item = some found) := by
  rw [normalizeHistory_eq]
  simp only [List.mem_flatMap, List.mem_filter, List.mem_cons, Option.mem_toList, and_assoc]

theorem paired_normalizeHistory (uuidV5 : String → String) (inputModalities : List InputModality) (items : List Item) :
    Paired (normalizeHistory uuidV5 inputModalities items) := by
  have hstrip := keys_stripItem inputModalities
  -- a call is retained, so that its key is there
  have hcall : ∀ call ∈ items, ∀ key, callKey call = some key →
      retained items call = true ∧ stripItem inputModalities call ∈ normalizeHistory uuidV5 inputModalities items := by
    intro call hcall key hkey
    have hretained : retained items call = true := by
      refine retained_iff.2 (.inr fun other hother => ?_)
      rw [outputKey_of_callKey hkey] at hother
      cases hother
    exact ⟨hretained, mem_normalizeHistory.2 ⟨call, hcall, hretained, .inl rfl⟩⟩
  constructor
  · intro found hfound key hkey
    obtain ⟨item, hitem, hretained, rfl | hmade⟩ := mem_normalizeHistory.1 hfound
    · rw [(hstrip item).1] at hkey
      by_cases hmem : key ∈ outputKeys items
      · obtain ⟨output, houtput, hokey⟩ := List.mem_filterMap.1 hmem
        have hkept : retained items output = true := by
          refine retained_iff.2 (.inr fun other hother => ?_)
          rw [hokey] at hother
          cases hother
          exact List.mem_filterMap.2 ⟨item, hitem, hkey⟩
        exact ⟨_, mem_normalizeHistory.2 ⟨output, houtput, hkept, .inl rfl⟩, (hstrip output).2.1.trans hokey⟩
      · obtain ⟨output, houtput, hokey⟩ := exists_missingOutput uuidV5 hkey hmem
        exact ⟨output, mem_normalizeHistory.2 ⟨item, hitem, hretained, .inr houtput⟩, hokey⟩
    · obtain ⟨hanswer, key', hcallKey, -⟩ := missingOutput_eq_some hmade
      have hnone := outputKey_of_callKey hkey
      rw [hanswer.key, hcallKey] at hnone
      cases hnone
  · intro found hfound hclient key hkey
    obtain ⟨item, hitem, hretained, rfl | hmade⟩ := mem_normalizeHistory.1 hfound
    · rw [(hstrip item).2.2] at hclient
      rw [(hstrip item).2.1] at hkey
      have hmem := (retained_iff.1 hretained).resolve_left (by rw [hclient]; exact Bool.false_ne_true) key hkey
      obtain ⟨call, hmemCall, hcallKey⟩ := List.mem_filterMap.1 hmem
      exact ⟨_, (hcall call hmemCall key hcallKey).2, (hstrip call).1.trans hcallKey⟩
    · obtain ⟨hanswer, key', hcallKey, -⟩ := missingOutput_eq_some hmade
      rw [hanswer.key, hcallKey] at hkey
      cases hkey
      exact ⟨_, (hcall item hitem key hcallKey).2, (hstrip item).1.trans hcallKey⟩

theorem normalizeHistory_of_paired (uuidV5 : String → String) (inputModalities : List InputModality)
    (h : Paired items) : normalizeHistory uuidV5 inputModalities items = items.map (stripItem inputModalities) := by
  have hretained : ∀ item ∈ items, retained items item = true := by
    intro item hitem
    rw [retained_iff]
    cases hserver : isServerOutput item with
    | true => exact .inl rfl
    | false =>
      refine .inr fun key hkey => ?_
      obtain ⟨call, hcall, hcallKey⟩ := h.outputs item hitem hserver key hkey
      exact List.mem_filterMap.2 ⟨call, hcall, hcallKey⟩
  have hmissing : ∀ item ∈ items, missingOutput uuidV5 items item = none := by
    intro item hitem
    cases hmade : missingOutput uuidV5 items item with
    | none => rfl
    | some made =>
      obtain ⟨-, key, hkey, hno⟩ := missingOutput_eq_some hmade
      obtain ⟨output, houtput, hokey⟩ := h.calls item hitem key hkey
      exact absurd (List.mem_filterMap.2 ⟨output, houtput, hokey⟩) hno
  rw [normalizeHistory_eq, List.filter_eq_self.2 hretained, List.map_eq_flatMap]
  refine List.flatMap_congr ?_
  intro item hitem
  rw [hmissing item hitem]
  rfl

theorem normalizeHistory_idempotent (uuidV5 : String → String) (inputModalities : List InputModality) (items : List Item) :
    normalizeHistory uuidV5 inputModalities (normalizeHistory uuidV5 inputModalities items) =
      normalizeHistory uuidV5 inputModalities items := by
  rw [normalizeHistory_of_paired uuidV5 inputModalities (paired_normalizeHistory uuidV5 inputModalities items)]
  refine (List.map_congr_left ?_).trans (List.map_id _)
  intro found hfound
  obtain ⟨item, -, -, rfl | hmade⟩ := mem_normalizeHistory.1 hfound
  · exact stripItem_stripItem inputModalities item
  · exact (missingOutput_eq_some hmade).1.strip inputModalities

end

/-- **Normalizing pairs calls and outputs**, keeps the items but the orphans in their order, and changes nothing when
done again. -/
theorem normalizing_pairs (uuidV5 : String → String) (inputModalities : List InputModality) (items : List Item) :
    Paired (normalizeHistory uuidV5 inputModalities items) ∧
      normalizeHistory uuidV5 inputModalities items = ((items.filter (retained items)).flatMap fun item =>
        stripItem inputModalities item :: (missingOutput uuidV5 items item).toList) ∧
      normalizeHistory uuidV5 inputModalities (normalizeHistory uuidV5 inputModalities items) =
        normalizeHistory uuidV5 inputModalities items :=
  ⟨paired_normalizeHistory uuidV5 inputModalities items, normalizeHistory_eq uuidV5 inputModalities items,
    normalizeHistory_idempotent uuidV5 inputModalities items⟩

/-- The output of a search that does not tell which call it answers. -/
def unnamedSearch : Item := .toolSearchOutput none none "completed" "client" [] none

/-- An output of the client without an id stays without a call, and audio is stripped as images are. -/
theorem unnamedSearch_unpaired :
    normalizeHistory (fun _ => "") [.text, .image] [unnamedSearch] = [unnamedSearch] ∧
      isServerOutput unnamedSearch = false ∧
      (¬ ∃ call ∈ [unnamedSearch], ∃ key, callKey call = some key ∧ outputKey unnamedSearch = some key) ∧
      normalizeHistory (fun _ => "") [.text, .image] [.message [.inputAudio "a"] ""] =
        [.message [.inputText audioContentOmittedPlaceholder] ""] := by
  refine ⟨by decide, rfl, ?_, by decide⟩
  rintro ⟨call, -, key, -, hkey⟩
  cases hkey

/-! ## Dropping the oldest item -/

/-- No key is that of two calls or of two outputs. -/
structure Unique (items : List Item) : Prop where
  calls : (callKeys items).Nodup
  outputs : (outputKeys items).Nodup

/-- The other half of the pair an item is in. -/
def isCounterpart (item found : Item) : Bool :=
  (callKey item).any (fun key => outputKey found == some key) || (outputKey item).any fun key => callKey found == some key

theorem isCounterpart_iff : isCounterpart item found = true ↔
    (∃ key, callKey item = some key ∧ outputKey found = some key) ∨
      ∃ key, outputKey item = some key ∧ callKey found = some key := by
  simp [isCounterpart, Option.any_eq_true]

theorem eraseP_eq_filter {items : List Item} (h : items.countP p ≤ 1) :
    items.eraseP p = items.filter fun item => !p item := by
  induction items with
  | nil => rfl
  | cons item items ih =>
    cases hp : p item with
    | true =>
      rw [List.countP_cons_of_pos hp] at h
      have hnone : ∀ found ∈ items, ¬ p found = true := List.countP_eq_zero.1 (by omega)
      rw [List.eraseP_cons_of_pos hp, List.filter_cons_of_neg (by simp [hp]), List.filter_eq_self.2]
      intro found hfound
      simpa using hnone found hfound
    | false =>
      rw [List.countP_cons_of_neg (by simp [hp])] at h
      rw [List.eraseP_cons_of_neg (by simp [hp]), List.filter_cons_of_pos (by simp [hp]), ih h]

theorem countP_key_le {items : List Item} (h : (items.filterMap key).Nodup)
    (k : Family × String) : items.countP (fun item => key item == some k) ≤ 1 := by
  have hcount := List.nodup_iff_count_le_one.1 h k
  rw [List.count, List.countP_filterMap] at hcount
  refine (List.countP_mono_left ?_).trans hcount
  intro item _ hitem
  rw [beq_iff_eq.1 hitem]
  simp

theorem Unique.eq_of_callKey {items : List Item} (h : Unique items) {call : Item} (hcall : call ∈ items)
    (hfound : found ∈ items) {key : Family × String} (hkey : (callKey call == some key) = true)
    (hkeyFound : (callKey found == some key) = true) : call = found := by
  have hcount := countP_key_le h.calls key
  rw [List.countP_eq_length_filter] at hcount
  have hmem : call ∈ items.filter fun item => callKey item == some key := List.mem_filter.2 ⟨hcall, hkey⟩
  have hmemFound : found ∈ items.filter fun item => callKey item == some key := List.mem_filter.2 ⟨hfound, hkeyFound⟩
  match hfilter : items.filter fun item => callKey item == some key with
  | [] => simp [hfilter] at hmem
  | [only] => rw [hfilter, List.mem_singleton] at hmem hmemFound; rw [hmem, hmemFound]
  | _ :: _ :: _ => simp [hfilter] at hcount

/-- Removing the first of the items with a key removes all of them, and where the items it is looked for among
are all that have the key, these are looked for. -/
theorem removeFirstMatching_eq {items : List Item} (h : (items.filterMap key).Nodup)
    {k : Family × String} (hp : ∀ item ∈ items, p item = (key item == some k)) :
    removeFirstMatching items p = items.filter fun item => !(key item == some k) := by
  have hcount : items.countP p ≤ 1 := by
    rw [List.countP_congr fun item hitem => by rw [hp item hitem]]
    exact countP_key_le h k
  rw [removeFirstMatching, eraseP_eq_filter hcount]
  exact List.filter_congr fun item hitem => by rw [hp item hitem]

def isOutputOf : Family → String → Item → Bool
  | .function => isFunctionOutputOf
  | .toolSearch => isToolSearchOutputOf
  | .custom => isCustomToolOutputOf

theorem isOutputOf_eq (family : Family) (callId : String) (item : Item) :
    isOutputOf family callId item = (outputKey item == some (family, callId)) := by
  cases item with
  | toolSearchOutput id existing =>
    cases existing <;> cases family <;>
      simp [isOutputOf, isFunctionOutputOf, isToolSearchOutputOf, isCustomToolOutputOf, outputKey]
  | _ => cases family <;> simp [isOutputOf, isFunctionOutputOf, isToolSearchOutputOf, isCustomToolOutputOf, outputKey]

/-- A function call output is of a function call or of a local shell call. -/
def isCallOf (family : Family) (callId : String) (item : Item) : Bool :=
  match family with
  | .function => isFunctionCallOf callId item || isLocalShellCallOf callId item
  | .toolSearch => isToolSearchCallOf callId item
  | .custom => isCustomToolCallOf callId item

theorem isCallOf_eq (family : Family) (callId : String) (item : Item) :
    isCallOf family callId item = (callKey item == some (family, callId)) := by
  cases item with
  | localShellCall id existing | toolSearchCall id existing =>
    cases existing <;> cases family <;>
      simp [isCallOf, isFunctionCallOf, isLocalShellCallOf, isToolSearchCallOf, isCustomToolCallOf, callKey]
  | _ =>
    cases family <;>
      simp [isCallOf, isFunctionCallOf, isLocalShellCallOf, isToolSearchCallOf, isCustomToolCallOf, callKey]

/-- **The counterpart and nothing else** is removed. -/
theorem removeCorrespondingFor_eq {items} (h : Unique items) (item : Item) :
    removeCorrespondingFor items item = items.filter fun found => !isCounterpart item found := by
  have hcall : ∀ (family : Family) (callId : String) (p : Item → Bool), callKey item = some (family, callId) →
      (∀ found, p found = (outputKey found == some (family, callId))) →
      removeFirstMatching items p = items.filter fun found => !isCounterpart item found := by
    intro family callId p hkey hp
    rw [removeFirstMatching_eq h.outputs fun found _ => hp found]
    exact List.filter_congr fun found _ => by rw [isCounterpart, hkey, outputKey_of_callKey hkey]; simp
  have houtput : ∀ (family : Family) (callId : String) (p : Item → Bool), callKey item = none →
      outputKey item = some (family, callId) → (∀ found ∈ items, p found = (callKey found == some (family, callId))) →
      removeFirstMatching items p = items.filter fun found => !isCounterpart item found := by
    intro family callId p hnone hkey hp
    rw [removeFirstMatching_eq h.calls hp]
    exact List.filter_congr fun found _ => by rw [isCounterpart, hkey, hnone]; simp
  have hneither : callKey item = none → outputKey item = none →
      items = items.filter fun found => !isCounterpart item found := by
    intro hcall houtput
    exact (List.filter_eq_self.2 fun found _ => by rw [isCounterpart, hcall, houtput]; rfl).symm
  cases item with
  | functionCall id callId => exact hcall .function callId _ rfl (isOutputOf_eq .function callId)
  | localShellCall id callId =>
    cases callId with
    | none => exact hneither rfl rfl
    | some callId => exact hcall .function callId _ rfl (isOutputOf_eq .function callId)
  | toolSearchCall id callId =>
    cases callId with
    | none => exact hneither rfl rfl
    | some callId => exact hcall .toolSearch callId _ rfl (isOutputOf_eq .toolSearch callId)
  | customToolCall id callId => exact hcall .custom callId _ rfl (isOutputOf_eq .custom callId)
  | toolSearchOutput id callId =>
    cases callId with
    | none => exact hneither rfl rfl
    | some callId => exact houtput .toolSearch callId _ rfl rfl fun found _ => isCallOf_eq .toolSearch callId found
  | customToolCallOutput id callId => exact houtput .custom callId _ rfl rfl fun found _ => isCallOf_eq .custom callId found
  | functionCallOutput id callId =>
    have hfunction (found : Item) : (isFunctionCallOf callId found || isLocalShellCallOf callId found) =
        (callKey found == some (.function, callId)) := isCallOf_eq .function callId found
    rw [removeCorrespondingFor]
    split
    next hany =>
      -- no local shell call has the id of a function call
      obtain ⟨call, hmem, hof⟩ := List.any_eq_true.1 hany
      refine houtput .function callId _ rfl rfl fun found hfound => ?_
      rw [← hfunction]
      cases hshell : isLocalShellCallOf callId found with
      | false => rw [Bool.or_false]
      | true =>
        have hsame : found = call := h.eq_of_callKey hfound hmem
          (by rw [← hfunction, hshell, Bool.or_true]) (by rw [← hfunction, hof, Bool.true_or])
        rw [hsame, hof, Bool.true_or]
    next hany =>
      refine houtput .function callId _ rfl rfl fun found hfound => ?_
      have hnot : isFunctionCallOf callId found = false := by
        simpa using fun hof => hany (List.any_eq_true.2 ⟨found, hfound, hof⟩)
      rw [← hfunction, hnot, Bool.false_or]
  | _ => exact hneither rfl rfl

theorem exists_isCounterpart (h : Paired (first :: rest))
    (hfirst : (callKey first).isSome = true ∨ (outputKey first).isSome = true ∧ isServerOutput first = false) :
    ∃ found ∈ rest, isCounterpart first found = true := by
  rcases hfirst with hcall | ⟨houtput, hclient⟩
  · obtain ⟨key, hkey⟩ := Option.isSome_iff_exists.1 hcall
    obtain ⟨found, hfound, hfoundKey⟩ := h.calls first List.mem_cons_self key hkey
    rcases List.mem_cons.1 hfound with rfl | hrest
    · rw [outputKey_of_callKey hkey] at hfoundKey
      cases hfoundKey
    · exact ⟨found, hrest, isCounterpart_iff.2 (.inl ⟨key, hkey, hfoundKey⟩)⟩
  · obtain ⟨key, hkey⟩ := Option.isSome_iff_exists.1 houtput
    obtain ⟨found, hfound, hfoundKey⟩ := h.outputs first List.mem_cons_self hclient key hkey
    rcases List.mem_cons.1 hfound with rfl | hrest
    · rw [outputKey_of_callKey hfoundKey] at hkey
      cases hkey
    · exact ⟨found, hrest, isCounterpart_iff.2 (.inr ⟨key, hkey, hfoundKey⟩)⟩

theorem countP_isCounterpart_le {items : List Item} (h : Unique items) (item : Item) : items.countP (isCounterpart item) ≤ 1 := by
  cases hcall : callKey item with
  | some key =>
    refine (List.countP_mono_left ?_).trans (countP_key_le h.outputs key)
    simp [isCounterpart, hcall, outputKey_of_callKey hcall]
  | none =>
    cases houtput : outputKey item with
    | some key =>
      refine (List.countP_mono_left ?_).trans (countP_key_le h.calls key)
      simp [isCounterpart, hcall, houtput]
    | none =>
      rw [List.countP_eq_zero.2 fun found _ => by simp [isCounterpart, hcall, houtput]]
      exact Nat.zero_le 1

theorem Unique.of_cons (h : Unique (first :: rest)) : Unique rest :=
  ⟨h.calls.sublist ((List.sublist_cons_self first rest).filterMap callKey),
    h.outputs.sublist ((List.sublist_cons_self first rest).filterMap outputKey)⟩

/-- What is left without a pair is paired: the halves of two pairs have different keys. -/
theorem Paired.without (hpaired : Paired (first :: rest)) (hunique : Unique (first :: rest)) :
    Paired (rest.filter fun found => !isCounterpart first found) := by
  have hcalls : ∀ found ∈ rest, ∀ key, callKey first = some key → callKey found ≠ some key := by
    intro found hfound key hkey hfoundKey
    have hnodup := hunique.calls
    rw [callKeys, List.filterMap_cons_some hkey, List.nodup_cons] at hnodup
    exact hnodup.1 (List.mem_filterMap.2 ⟨found, hfound, hfoundKey⟩)
  have houtputs : ∀ found ∈ rest, ∀ key, outputKey first = some key → outputKey found ≠ some key := by
    intro found hfound key hkey hfoundKey
    have hnodup := hunique.outputs
    rw [outputKeys, List.filterMap_cons_some hkey, List.nodup_cons] at hnodup
    exact hnodup.1 (List.mem_filterMap.2 ⟨found, hfound, hfoundKey⟩)
  constructor
  · intro call hcall key hkey
    obtain ⟨hrest, hkept⟩ := List.mem_filter.1 hcall
    obtain ⟨output, houtput, hokey⟩ := hpaired.calls call (List.mem_cons_of_mem first hrest) key hkey
    rcases List.mem_cons.1 houtput with rfl | houtputRest
    · rw [isCounterpart_iff.2 (.inr ⟨key, hokey, hkey⟩)] at hkept
      cases hkept
    · refine ⟨output, List.mem_filter.2 ⟨houtputRest, ?_⟩, hokey⟩
      rw [Bool.not_eq_true', ← Bool.not_eq_true, isCounterpart_iff]
      rintro (⟨key', hfirst, hokey'⟩ | ⟨key', -, hokey'⟩)
      · rw [hokey] at hokey'
        cases hokey'
        exact hcalls call hrest key hfirst hkey
      · rw [outputKey_of_callKey hokey'] at hokey
        cases hokey
  · intro output houtput hclient key hkey
    obtain ⟨hrest, hkept⟩ := List.mem_filter.1 houtput
    obtain ⟨call, hcall, hckey⟩ := hpaired.outputs output (List.mem_cons_of_mem first hrest) hclient key hkey
    rcases List.mem_cons.1 hcall with rfl | hcallRest
    · rw [isCounterpart_iff.2 (.inl ⟨key, hckey, hkey⟩)] at hkept
      cases hkept
    · refine ⟨call, List.mem_filter.2 ⟨hcallRest, ?_⟩, hckey⟩
      rw [Bool.not_eq_true', ← Bool.not_eq_true, isCounterpart_iff]
      rintro (⟨key', -, hckey'⟩ | ⟨key', hfirst, hckey'⟩)
      · rw [outputKey_of_callKey hckey] at hckey'
        cases hckey'
      · rw [hckey] at hckey'
        cases hckey'
        exact houtputs output hrest key hfirst hkey

/-- **Dropping the oldest item keeps the pairs**: it takes the item and, of what is paired, its one counterpart, and
leaves the others in order, paired again. -/
theorem removeFirstItem_pairs (history : History) (hunique : Unique history.items) (hpaired : Paired history.items) :
    Paired history.removeFirstItem.items ∧ Unique history.removeFirstItem.items ∧
      (history.items = [] → history.removeFirstItem = history) ∧
      ∀ first rest, history.items = first :: rest →
        history.removeFirstItem.items = rest.filter (fun found => !isCounterpart first found) ∧
        rest.countP (isCounterpart first) ≤ 1 ∧
        ((callKey first).isSome = true ∨ (outputKey first).isSome = true ∧ isServerOutput first = false →
          rest.countP (isCounterpart first) = 1) := by
  obtain ⟨items, worldStateBaseline⟩ := history
  cases items with
  | nil =>
    refine ⟨hpaired, hunique, fun _ => rfl, fun first rest hitems => ?_⟩
    cases hitems
  | cons removed items =>
    have hresult : History.removeFirstItem ⟨removed :: items, worldStateBaseline⟩ =
        ⟨items.filter fun found => !isCounterpart removed found, none⟩ :=
      congrArg (History.mk · none) (removeCorrespondingFor_eq hunique.of_cons removed)
    rw [hresult]
    refine ⟨hpaired.without hunique, ?_, fun hnil => ?_, fun first rest hitems => ?_⟩
    · exact ⟨hunique.of_cons.calls.sublist (List.filter_sublist.filterMap callKey),
        hunique.of_cons.outputs.sublist (List.filter_sublist.filterMap outputKey)⟩
    · cases hnil
    · cases hitems
      have hle := countP_isCounterpart_le hunique.of_cons removed
      refine ⟨rfl, hle, fun hfirst => ?_⟩
      have hpos : 0 < items.countP (isCounterpart removed) := List.countP_pos_iff.2 (exists_isCounterpart hpaired hfirst)
      omega

/-- A shell call answered by a function call output, and a message. -/
def shellHistory : History :=
  { items := [.localShellCall none (some "c1") "", .message [] "", .functionCallOutput none "c1" (.fromText []) none],
    worldStateBaseline := none }

theorem removeFirstItem_pairs_shellHistory : shellHistory.removeFirstItem.items = [.message [] ""] := by
  have hunique : Unique shellHistory.items := ⟨by decide, by decide⟩
  have hpaired : Paired shellHistory.items := by
    constructor
    · intro call hcall key hkey
      refine ⟨_, List.mem_of_getElem? (i := 2) rfl, ?_⟩
      simp only [shellHistory, List.mem_cons, List.not_mem_nil, or_false] at hcall
      rcases hcall with rfl | rfl | rfl
      · exact hkey
      · cases hkey
      · cases hkey
    · intro output houtput _ key hkey
      refine ⟨_, List.mem_of_getElem? (i := 0) rfl, ?_⟩
      simp only [shellHistory, List.mem_cons, List.not_mem_nil, or_false] at houtput
      rcases houtput with rfl | rfl | rfl
      · cases hkey
      · cases hkey
      · exact hkey
  exact ((removeFirstItem_pairs shellHistory hunique hpaired).2.2.2 _ _ rfl).1

end Codex.Normalize
