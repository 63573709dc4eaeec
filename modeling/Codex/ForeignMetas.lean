/-
Session metadata of other threads in a rollout, as a fork's copied history has it.
Extraction leaves it out of the row (`foldl_kept`), but not out of the memory mode,
which it takes from the last session metadata of any thread.

The records put in are marked; the other records are the rollout without them.
-/
import Codex.MetadataRestated

namespace Codex.Metadata

open LastWrites

variable {K : Kinds}

/-- The records that are not marked. -/
def unmarked (records : List (RolloutItem K × Bool)) : List (RolloutItem K) :=
  (records.filter fun record => !record.2).map Prod.fst

/-- The marked records are session metadata of other threads, somewhere after the first session metadata. -/
def ForeignInserted (first : SessionMetaLine K) (records : List (RolloutItem K × Bool)) : Prop :=
  ∃ (earlier : List (RolloutItem K)) (later : List (RolloutItem K × Bool)),
    records = earlier.map (·, false) ++ (.sessionMeta first, false) :: later ∧ (∀ item ∈ earlier, sessionMetaOf item = none) ∧
      ∀ record ∈ later, record.2 = true → ∃ line, record.1 = .sessionMeta line ∧ line.id ≠ first.id

theorem unmarked_append (records more : List (RolloutItem K × Bool)) :
    unmarked (records ++ more) = unmarked records ++ unmarked more := by
  rw [unmarked, List.filter_append, List.map_append]
  rfl

theorem unmarked_map (items : List (RolloutItem K)) : unmarked (items.map (·, false)) = items := by
  induction items with
  | nil => rfl
  | cons item items ih => exact congrArg (item :: ·) ih

theorem map_fst_map (items : List (RolloutItem K)) (mark : Bool) : (items.map (·, mark)).map Prod.fst = items := by
  rw [List.map_map]
  exact List.map_id items

namespace ForeignInserted

variable {first : SessionMetaLine K} {records : List (RolloutItem K × Bool)}

theorem findSome?_eq (h : ForeignInserted first records) : (records.map Prod.fst).findSome? sessionMetaOf = some first ∧
    (unmarked records).findSome? sessionMetaOf = some first := by
  obtain ⟨earlier, later, rfl, hearlier, -⟩ := h
  constructor
  · rw [List.map_append, map_fst_map, List.map_cons]
    exact findSome?_sessionMetaOf first hearlier
  · rw [unmarked_append, unmarked_map]
    exact findSome?_sessionMetaOf first hearlier

theorem nonempty (h : ForeignInserted first records) :
    (records.map Prod.fst).isEmpty = false ∧ (unmarked records).isEmpty = false := by
  obtain ⟨earlier, later, rfl, -, -⟩ := h
  simp [unmarked]

end ForeignInserted

section
variable {codecs : Extraction K}

/-- One row for both, as long as it is the thread's. -/
theorem foldl_kept {first : SessionMetaLine K} {metadata : ThreadMetadata K} (hid : metadata.id = first.id)
    (hprovider : withDefault codecs metadata.modelProvider = metadata.modelProvider) {later : List (RolloutItem K × Bool)}
    (h : ∀ record ∈ later, record.2 = true → ∃ line, record.1 = .sessionMeta line ∧ line.id ≠ first.id) :
    (later.map Prod.fst).foldl (applyRolloutItem codecs.toCodecs codecs.defaultProvider) metadata =
      (unmarked later).foldl (applyRolloutItem codecs.toCodecs codecs.defaultProvider) metadata := by
  induction later generalizing metadata with
  | nil => rfl
  | cons record later ih =>
    obtain ⟨item, mark⟩ := record
    have hrest := fun record hrecord => h record (List.mem_cons_of_mem _ hrecord)
    cases mark with
    | true =>
      obtain ⟨line, rfl, hline⟩ := h _ (List.mem_cons_self ..) rfl
      rw [List.map_cons, List.foldl_cons, applyRolloutItem_foreign (by rw [hid]; exact hline.symm) hprovider]
      exact ih hid hprovider hrest
    | false =>
      rw [List.map_cons, List.foldl_cons, ih ((applyRolloutItem_id _ _).trans hid) ?_ hrest]
      · rfl
      · rw [applyRolloutItem_normal]
        exact withDefault_withDefault _

theorem foldl_foreignInserted {first : SessionMetaLine K} {metadata : ThreadMetadata K} (hid : metadata.id = first.id)
    {records : List (RolloutItem K × Bool)} (h : ForeignInserted first records) :
    (records.map Prod.fst).foldl (applyRolloutItem codecs.toCodecs codecs.defaultProvider) metadata =
      (unmarked records).foldl (applyRolloutItem codecs.toCodecs codecs.defaultProvider) metadata := by
  obtain ⟨earlier, later, rfl, -, hlater⟩ := h
  rw [List.map_append, map_fst_map, unmarked_append, unmarked_map, List.foldl_append, List.foldl_append, List.map_cons,
    List.foldl_cons]
  refine foldl_kept ?_ ?_ hlater
  · rw [applyRolloutItem_id, foldl_id, hid]
  · rw [applyRolloutItem_normal]
    exact withDefault_withDefault _

theorem builderFromItems_foreignInserted {first records}
    (h : ForeignInserted first records) (rollout : Rollout K) :
    builderFromItems codecs { rollout with items := records.map Prod.fst } =
      builderFromItems codecs { rollout with items := unmarked records } := by
  rw [builderFromItems, builderFromItems, h.findSome?_eq.1, h.findSome?_eq.2]
  rfl

theorem getD_cancel {α : Type*} {o o' : Option α} {a b : α} (hne : a ≠ b) (ha : o.getD a = o'.getD a)
    (hb : o.getD b = o'.getD b) : o = o' := by
  cases o with
  | none =>
    cases o' with
    | none => rfl
    | some v => exact absurd (ha.trans hb.symm) hne
  | some v =>
    cases o' with
    | none => exact absurd (ha.symm.trans hb) hne
    | some w => exact congrArg some ha

theorem applyRolloutItems_memoryMode (existing : Option (StoredThread K)) (builder : ThreadMetadataBuilder K)
    {items} (hne : items.isEmpty = false) (newThreadMemoryMode : Option Text) :
    (applyRolloutItems codecs existing builder items newThreadMemoryMode).map (·.memoryMode) =
      some ((last memoryModeOf items).getD
        ((existing.map (·.memoryMode)).getD (newThreadMemoryMode.getD "enabled".toList))) := by
  rw [applyRolloutItems, if_neg (by simp [hne]), extractMemoryMode_eq]
  cases existing <;> rfl

/-- **When another thread's session metadata leaks.** Never into the metadata, and into the memory mode only where it
is the last to carry one, and that is not the last one without it. -/
theorem foreignMetas_iff {rollout : Rollout K} {first : SessionMetaLine K} {records : List (RolloutItem K × Bool)}
    (h : ForeignInserted first records)
    (hown : ∀ builder ∈ builderFromItems codecs { rollout with items := unmarked records }, builder.id = first.id) :
    (extractMetadataFromRollout codecs { rollout with items := records.map Prod.fst }).map (·.metadata) =
        (extractMetadataFromRollout codecs { rollout with items := unmarked records }).map (·.metadata) ∧
      (extractMetadataFromRollout codecs { rollout with items := records.map Prod.fst } =
            extractMetadataFromRollout codecs { rollout with items := unmarked records } ∧
          (∀ existing builder newThreadMemoryMode,
            (applyRolloutItems codecs existing builder (records.map Prod.fst) newThreadMemoryMode).map (·.memoryMode) =
              (applyRolloutItems codecs existing builder (unmarked records) newThreadMemoryMode).map (·.memoryMode)) ↔
        ∀ mode, lastMarked memoryModeOf records = some (mode, true) → last memoryModeOf (unmarked records) = some mode) := by
  have hmetadata : ∀ builder, builderFromItems codecs { rollout with items := unmarked records } = some builder →
      (records.map Prod.fst).foldl (applyRolloutItem codecs.toCodecs codecs.defaultProvider) (builder.build codecs) =
        (unmarked records).foldl (applyRolloutItem codecs.toCodecs codecs.defaultProvider) (builder.build codecs) :=
    fun builder hbuilder => foldl_foreignInserted (hown builder hbuilder) h
  have hmode : last memoryModeOf (records.map Prod.fst) = last memoryModeOf (unmarked records) ↔
      ∀ mode, lastMarked memoryModeOf records = some (mode, true) → last memoryModeOf (unmarked records) = some mode :=
    last_marked_iff records
  rw [← hmode]
  simp only [extractMetadataFromRollout, h.nonempty.1, h.nonempty.2, builderFromItems_foreignInserted h, extractMemoryMode_eq]
  refine ⟨?_, ?_, fun hlast => ⟨?_, ?_⟩⟩
  · cases hbuilder : builderFromItems codecs { rollout with items := unmarked records } with
    | none => rfl
    | some builder => exact congrArg Except.ok (hmetadata builder hbuilder)
  · rintro ⟨-, hstored⟩
    -- two threads that are new and differ in their memory mode
    have hon := hstored none { id := [], rolloutPath := [], source := codecs.defaultSource } (some "enabled".toList)
    have hoff := hstored none { id := [], rolloutPath := [], source := codecs.defaultSource } (some "disabled".toList)
    rw [applyRolloutItems_memoryMode _ _ h.nonempty.1, applyRolloutItems_memoryMode _ _ h.nonempty.2] at hon hoff
    have hne : "enabled".toList ≠ "disabled".toList := by decide
    exact getD_cancel hne (Option.some.inj hon) (Option.some.inj hoff)
  · cases hbuilder : builderFromItems codecs { rollout with items := unmarked records } with
    | none => rfl
    | some builder => simp only [hmetadata builder hbuilder, hlast]
  · intro existing builder newThreadMemoryMode
    rw [applyRolloutItems_memoryMode _ _ h.nonempty.1, applyRolloutItems_memoryMode _ _ h.nonempty.2, hlast]

end

/-! ## A fork that copies a disabled thread -/

/-- A thread that has a message and then the session metadata of another. -/
def forkRecords : List (RolloutItem plainKinds × Bool) :=
  [(.sessionMeta movedMeta, false), (.eventMsg (.tokenCount none), false),
    (.sessionMeta { movedMeta with id := "u".toList, memoryMode := some "disabled".toList }, true)]

theorem foreignInserted_fork : ForeignInserted movedMeta forkRecords := by
  refine ⟨[], _, rfl, fun _ h => absurd h List.not_mem_nil, ?_⟩
  rintro record hrecord hmark
  rcases List.mem_cons.1 hrecord with rfl | hrecord
  · cases hmark
  · obtain rfl := List.mem_singleton.1 hrecord
    exact ⟨_, rfl, by decide⟩

theorem builderFromItems_fork :
    ∀ builder ∈ builderFromItems plainExtraction { movedRollout with items := unmarked forkRecords },
      builder.id = movedMeta.id := by
  intro builder hbuilder
  exact congrArg ThreadMetadataBuilder.id (Option.some.inj hbuilder).symm

theorem foreignMetas_iff_fork :
    (extractMetadataFromRollout plainExtraction { movedRollout with items := forkRecords.map Prod.fst }).map (·.metadata) =
      (extractMetadataFromRollout plainExtraction { movedRollout with items := unmarked forkRecords }).map (·.metadata) :=
  (foreignMetas_iff foreignInserted_fork builderFromItems_fork).1

/-- The memory mode is the other thread's. -/
theorem not_foreignMetas_fork : ForeignInserted movedMeta forkRecords ∧
    (extractMetadataFromRollout plainExtraction { movedRollout with items := unmarked forkRecords }).map (·.memoryMode) =
      .ok none ∧
    (extractMetadataFromRollout plainExtraction { movedRollout with items := forkRecords.map Prod.fst }).map (·.memoryMode) =
      .ok (some "disabled".toList) ∧
    ∀ builder, (applyRolloutItems plainExtraction none builder (unmarked forkRecords) none).map (·.memoryMode) =
        some "enabled".toList ∧
      (applyRolloutItems plainExtraction none builder (forkRecords.map Prod.fst) none).map (·.memoryMode) =
        some "disabled".toList :=
  ⟨foreignInserted_fork, rfl, rfl, fun _ => ⟨rfl, rfl⟩⟩

end Codex.Metadata
