/-
The item ids of a full request's snapshot. Every payload item gets one id, and the item
behind it matches the payload item then and for good, whatever is reduced later: no
reduction changes what an item is known by (`Extends`). An id is given out twice where an
item fits the id at its own position of the baseline and that has been given out, since
only the search by content passes over the ids in use.

Source: rollout-trace/src/reducer/conversation.rs.
-/
import Codex.TraceReducer
import Codex.Lib.GreedyReuse
import Codex.Lib.NumberedList
import Mathlib.Data.List.Find

namespace Codex.Trace

open Results (bind_eq_ok)

namespace TraceReducer

variable {R : Type} {s s' s₀ : TraceReducer R} {linking : Linking R} {serde : Serde}

/-! ## What items are known by -/

def identityOf (s : TraceReducer R) (itemId : String) : Option Identity :=
  (s.conversationItems.lookup itemId).map ConversationItem.identity

theorem itemMatches_iff {itemId n} :
    s.itemMatches itemId n = true ↔ s.identityOf itemId = some n.identity := by
  unfold itemMatches identityOf
  cases s.conversationItems.lookup itemId with
  | none => simp
  | some item => simp [conversationItemMatches_iff]

theorem difunctional_itemMatches (s : TraceReducer R) : GreedyReuse.Difunctional s.itemMatches := by
  intro a b m n ham hbm han
  rw [itemMatches_iff] at ham hbm han ⊢
  rw [hbm, ← ham, han]

theorem conversationItemId_injective {i j : Nat} (h : conversationItemId i = conversationItemId j) : i = j :=
  NumberedList.append_toString_injective "conversation_item:" h

/-- The ids that are in use are those of the ordinals drawn. -/
def Numbered (s : TraceReducer R) : Prop :=
  ∀ itemId, (s.identityOf itemId).isSome → ∃ ordinal < s.nextConversationItemOrdinal, itemId = conversationItemId ordinal

def Known (s : TraceReducer R) (itemIds : List String) : Prop := ∀ itemId ∈ itemIds, (s.identityOf itemId).isSome

/-- The id at each position is that of an item known by what the payload item is. -/
def Named (s : TraceReducer R) (itemIds : List String) (items : List NormalizedConversationItem) : Prop :=
  List.Forall₂ (fun itemId item => s.identityOf itemId = some item.identity) itemIds items

/-- Items are added, and none is changed in what it is known by. -/
structure Extends (s s' : TraceReducer R) : Prop where
  identity : ∀ itemId identity, s.identityOf itemId = some identity → s'.identityOf itemId = some identity
  numbered : s.Numbered → s'.Numbered
  calls : s'.inferenceCalls = s.inferenceCalls
  snapshots : s'.threadConversationSnapshots = s.threadConversationSnapshots
  pending : s'.pendingCompactionReplacementItemIds = s.pendingCompactionReplacementItemIds

theorem Extends.refl (s : TraceReducer R) : s.Extends s where
  identity _ _ h := h
  numbered h := h
  calls := rfl
  snapshots := rfl
  pending := rfl

theorem Extends.trans (h : s₀.Extends s) (h' : s.Extends s') : s₀.Extends s' where
  identity itemId identity hid := h'.identity _ _ (h.identity itemId identity hid)
  numbered hs := h'.numbered (h.numbered hs)
  calls := h'.calls.trans h.calls
  snapshots := h'.snapshots.trans h.snapshots
  pending := h'.pending.trans h.pending

theorem Known.mono {itemIds} (h : s.Known itemIds) (hs : s.Extends s') : s'.Known itemIds := by
  intro itemId hmem
  obtain ⟨identity, hid⟩ := Option.isSome_iff_exists.1 (h itemId hmem)
  rw [hs.identity _ _ hid]
  rfl

variable {items : List NormalizedConversationItem} {used previous : List String}
  {done : List NormalizedConversationItem} {itemIds' : List String}

theorem Named.known {itemIds} (h : s.Named itemIds items) : s.Known itemIds := by
  intro itemId hmem
  obtain ⟨i, hi, rfl⟩ := List.mem_iff_getElem.1 hmem
  have hitem := h.get hi (by rw [← h.length_eq]; exact hi)
  rw [List.get_eq_getElem] at hitem
  rw [hitem]
  rfl

theorem identityOf_insertItem (s : TraceReducer R) (itemId : String) (item : ConversationItem) (itemId' : String) :
    (s.insertItem itemId item).identityOf itemId' = if itemId' = itemId then some item.identity else s.identityOf itemId' := by
  unfold identityOf insertItem
  rw [SortedEntries.lookup_insert]
  split <;> rfl

theorem extends_insertItem {itemId item item'}
    (h : s.conversationItems.lookup itemId = some item) (hidentity : item'.identity = item.identity) :
    s.Extends (s.insertItem itemId item') := by
  have hsame : ∀ itemId', (s.insertItem itemId item').identityOf itemId' = s.identityOf itemId' := by
    intro itemId'
    rw [identityOf_insertItem]
    split
    next heq => rw [heq, identityOf, h, hidentity]; rfl
    next => rfl
  exact {
    identity := fun itemId' identity hid => (hsame itemId').trans hid
    numbered := fun hs itemId' hid => hs itemId' (hsame itemId' ▸ hid)
    calls := rfl
    snapshots := rfl
    pending := rfl }

theorem identity_addProducers (producedBy : List ProducerRef) (item : ConversationItem) :
    (addProducers producedBy item).identity = item.identity := by
  unfold addProducers
  induction producedBy generalizing item with
  | nil => rfl
  | cons producer producedBy ih =>
    rw [List.foldl_cons, ih]
    split <;> rfl

theorem extends_withEffect (s : TraceReducer R) (effect : Effect R) : s.Extends (s.withEffect effect) := by
  obtain ⟨rest, pushed⟩ := effect
  unfold withEffect
  have hrest : s.Extends { s with rest } := ⟨fun _ _ h => h, fun h => h, rfl, rfl, rfl⟩
  generalize { s with rest } = s' at hrest ⊢
  induction pushed generalizing s' with
  | nil => exact hrest
  | cons p pushed ih =>
    rw [List.foldl_cons]
    apply ih
    cases hp : s'.conversationItems.lookup p.1 with
    | none => exact hrest
    | some item => exact hrest.trans (extends_insertItem hp (identity_addProducers _ item))

/-! ## One item -/

theorem identityOf_fresh (h : s.Numbered) : s.identityOf (conversationItemId s.nextConversationItemOrdinal) = none := by
  by_contra hne
  obtain ⟨ordinal, hlt, heq⟩ := h _ (Option.isSome_iff_ne_none.2 hne)
  have := conversationItemId_injective heq
  omega

theorem createConversationItem_spec (h : s.Numbered) {threadId codexTurnId} {time : Int}
    {item producedBy itemId}
    (hcreate : s.createConversationItem threadId codexTurnId time item producedBy = (itemId, s')) :
    s.Extends s' ∧ s.identityOf itemId = none ∧ s'.identityOf itemId = some item.identity := by
  obtain ⟨rfl, rfl⟩ := Prod.mk.inj hcreate
  have hfresh := identityOf_fresh h
  refine ⟨⟨?_, ?_, rfl, rfl, rfl⟩, hfresh, ?_⟩
  · intro itemId' identity hid
    rw [identityOf_insertItem, if_neg]
    · exact hid
    · rintro rfl
      rw [hfresh] at hid
      cases hid
  · intro _ itemId' hid
    rw [identityOf_insertItem] at hid
    split at hid
    next heq => exact ⟨_, Nat.lt_succ_self _, heq⟩
    next =>
      obtain ⟨ordinal, hlt, heq⟩ := h itemId' hid
      exact ⟨ordinal, Nat.lt_succ_of_lt hlt, heq⟩
  · rw [identityOf_insertItem, if_pos rfl]
    rfl

theorem sightItem_extends {itemId item producedBy}
    (h : s.sightItem linking itemId item producedBy = .ok s') : s.Extends s' := by
  obtain ⟨updated, hupdate, h⟩ := bind_eq_ok.1 h
  obtain ⟨effect, -, h⟩ := bind_eq_ok.1 h
  cases h
  refine Extends.trans ?_ (extends_withEffect updated effect)
  unfold updateConversationItemFromSighting at hupdate
  split at hupdate
  · cases hupdate
  next existing hexisting =>
    split at hupdate
    next hkind =>
      obtain ⟨body, hbody, hupdate⟩ := bind_eq_ok.1 hupdate
      cases hupdate
      apply extends_insertItem hexisting
      rw [identity_addProducers]
      simp only [ConversationItem.identity, hkind, bodyIdentity_mergeReasoningBody hbody]
    next =>
      cases hupdate
      exact extends_insertItem hexisting (identity_addProducers _ _)

section Choice

variable {context : ReconcileItems} {item : NormalizedConversationItem} {itemId : String}

theorem createItem_spec (h : s.Numbered) (hcreate : s.createItem context item = (itemId, s')) :
    s.Extends s' ∧ s.identityOf itemId = none ∧ s'.identityOf itemId = some item.identity :=
  createConversationItem_spec h hcreate

theorem findOrCreate_spec (h : s.Numbered) {candidates}
    (hfind : s.findOrCreate context candidates used item = (itemId, s')) :
    s.Extends s' ∧ s'.identityOf itemId = some item.identity ∧
      (s.findMatchingSnapshotItem candidates used item = some itemId ∨
        s.findMatchingSnapshotItem candidates used item = none ∧ s.identityOf itemId = none) := by
  unfold findOrCreate at hfind
  cases hsearch : s.findMatchingSnapshotItem candidates used item with
  | some found =>
    rw [hsearch] at hfind
    obtain ⟨rfl, rfl⟩ := Prod.mk.inj hfind
    exact ⟨.refl s, itemMatches_iff.1 (GreedyReuse.found_spec hsearch).2, .inl rfl⟩
  | none =>
    rw [hsearch] at hfind
    obtain ⟨hext, hfresh, hid⟩ := createItem_spec h hfind
    exact ⟨hext, hid, .inr ⟨rfl, hfresh⟩⟩

theorem chooseItem_extends (h : s.Numbered)
    (hchoose : s.chooseItem context previous used item = .ok (itemId, s')) :
    s.Extends s' ∧ s'.identityOf itemId = some item.identity := by
  have hfound : s.findOrCreate context previous used item = (itemId, s') →
      s.Extends s' ∧ s'.identityOf itemId = some item.identity := by
    intro hfind
    obtain ⟨hext, hid, -⟩ := findOrCreate_spec h hfind
    exact ⟨hext, hid⟩
  unfold chooseItem at hchoose
  dsimp only at hchoose
  split at hchoose
  · split at hchoose
    next hmatches =>
      cases hchoose
      exact ⟨.refl s, itemMatches_iff.1 hmatches⟩
    next =>
      split at hchoose
      · exact hfound (Except.ok.inj hchoose)
      · cases hchoose
  · split at hchoose
    · exact hfound (Except.ok.inj hchoose)
    · obtain ⟨hext, -, hid⟩ := createItem_spec h (Except.ok.inj hchoose)
      exact ⟨hext, hid⟩

/-- In a full snapshot an item gets what `GreedyReuse` gives it. -/
theorem chooseItem_chosen (h : s.Numbered) (hprevious : s.Known previous)
    (hused : s.Known used) (hmode : context.mode = .fullSnapshot) (hstart : context.startIndex = 0)
    (hchoose : s.chooseItem context previous used item = .ok (itemId, s')) :
    GreedyReuse.Chosen s.itemMatches previous used item itemId := by
  have hfound : (∀ b ∈ previous[used.length]?, s.itemMatches b item = false) →
      s.findOrCreate context previous used item = (itemId, s') →
      GreedyReuse.Chosen s.itemMatches previous used item itemId := by
    intro hplace hfind
    obtain ⟨-, -, hsearch | ⟨hsearch, hfresh⟩⟩ := findOrCreate_spec h hfind
    · exact .found hplace hsearch
    · refine .fresh hplace hsearch ?_ ?_
      · intro hmem
        have := hprevious itemId hmem
        rw [hfresh] at this
        cases this
      · intro hmem
        have := hused itemId hmem
        rw [hfresh] at this
        cases this
  unfold chooseItem at hchoose
  dsimp only at hchoose
  rw [hmode, hstart, Nat.zero_add] at hchoose
  split at hchoose
  next previousItemId hget =>
    split at hchoose
    next hmatches =>
      cases hchoose
      exact .inPlace hget hmatches
    next hmiss =>
      refine hfound ?_ (Except.ok.inj hchoose)
      intro b hb
      obtain rfl : previousItemId = b := Option.some.inj (hget.symm.trans hb)
      simpa using hmiss
  next hnone =>
    refine hfound ?_ (Except.ok.inj hchoose)
    intro b hb
    rw [hnone] at hb
    cases hb

end Choice

/-! ## The loops -/

/-- Where a loop stands: the items that are done have their ids. -/
structure Progress (s₀ s : TraceReducer R) (done : List NormalizedConversationItem) (itemIds : List String) : Prop where
  extension : s₀.Extends s
  numbered : s.Numbered
  named : s.Named itemIds done

theorem Progress.start (h : s.Numbered) : Progress s s [] [] := ⟨.refl s, h, .nil⟩

theorem Named.mono {itemIds} (h : s.Named itemIds items) (hs : s.Extends s') : s'.Named itemIds items :=
  h.imp fun _ _ hid => hs.identity _ _ hid

theorem Progress.extend {itemIds} (h : Progress s₀ s done itemIds)
    (hs : s.Extends s') : Progress s₀ s' done itemIds :=
  ⟨h.extension.trans hs, hs.numbered h.numbered, h.named.mono hs⟩

theorem Progress.concat {itemIds} (h : Progress s₀ s done itemIds)
    {item itemId} (hid : s.identityOf itemId = some item.identity) :
    Progress s₀ s (done ++ [item]) (itemIds ++ [itemId]) :=
  ⟨h.extension, h.numbered, List.rel_append h.named (.cons hid .nil)⟩

theorem reconcileLoop_progress {context itemIds} (h : Progress s₀ s done itemIds)
    (hloop : reconcileLoop linking context previous items itemIds s = .ok (itemIds', s')) :
    Progress s₀ s' (done ++ items) itemIds' := by
  induction items generalizing s done itemIds with
  | nil =>
    cases hloop
    rwa [List.append_nil]
  | cons item items ih =>
    obtain ⟨-, -, hloop⟩ := bind_eq_ok.1 hloop
    obtain ⟨⟨itemId, s₁⟩, hchoose, hloop⟩ := bind_eq_ok.1 hloop
    obtain ⟨s₂, hsight, hloop⟩ := bind_eq_ok.1 hloop
    obtain ⟨hext, hid⟩ := chooseItem_extends h.numbered hchoose
    rw [List.append_cons]
    exact ih (((h.extend hext).concat hid).extend (sightItem_extends hsight)) hloop

theorem reconcileDetachedLoop_progress {context itemIds} (h : Progress s₀ s done itemIds)
    (hloop : reconcileDetachedLoop linking context items itemIds s = .ok (itemIds', s')) :
    Progress s₀ s' (done ++ items) itemIds' := by
  induction items generalizing s done itemIds with
  | nil =>
    cases hloop
    rwa [List.append_nil]
  | cons item items ih =>
    obtain ⟨-, -, hloop⟩ := bind_eq_ok.1 hloop
    obtain ⟨s₂, hsight, hloop⟩ := bind_eq_ok.1 hloop
    obtain ⟨hext, hid, -⟩ := findOrCreate_spec h.numbered (Prod.eta _).symm
    rw [List.append_cons]
    exact ih (((h.extend hext).concat hid).extend (sightItem_extends hsight)) hloop

/-- What is in place or found is decided by the state at the loop's start. -/
theorem chosen_start (hext : s₀.Extends s) (hprevious : s₀.Known previous)
    {item itemId} (h : GreedyReuse.Chosen s.itemMatches previous used item itemId) :
    GreedyReuse.Chosen s₀.itemMatches previous used item itemId := by
  have hsame : ∀ b ∈ previous, s.itemMatches b item = s₀.itemMatches b item := by
    intro b hb
    obtain ⟨identity, hid⟩ := Option.isSome_iff_exists.1 (hprevious b hb)
    rw [Bool.eq_iff_iff, itemMatches_iff, itemMatches_iff, hid, hext.identity _ _ hid]
  have hplace : (∀ b ∈ previous[used.length]?, s.itemMatches b item = false) →
      ∀ b ∈ previous[used.length]?, s₀.itemMatches b item = false := by
    intro hmiss b hb
    rw [← hsame b (List.mem_of_getElem? hb)]
    exact hmiss b hb
  have hfind : previous.find? (fun b => decide (b ∉ used) && s.itemMatches b item) =
      previous.find? fun b => decide (b ∉ used) && s₀.itemMatches b item := by
    apply List.find?_congr
    intro b hb
    rw [hsame b hb]
  cases h with
  | inPlace hget hmatches => exact .inPlace hget (hsame itemId (List.mem_of_getElem? hget) ▸ hmatches)
  | found hmiss hfound => exact .found (hplace hmiss) (hfind ▸ hfound)
  | fresh hmiss hnone hbase hused => exact .fresh (hplace hmiss) (hfind ▸ hnone) hbase hused

/-- **A full snapshot takes its ids from the baseline greedily.** -/
theorem reconcileLoop_assigns {context} (hmode : context.mode = .fullSnapshot)
    (hstart : context.startIndex = 0) (hprevious : s₀.Known previous)
    {itemIds} (h : Progress s₀ s done itemIds)
    (hdone : GreedyReuse.Assigns s₀.itemMatches previous done itemIds)
    (hloop : reconcileLoop linking context previous items itemIds s = .ok (itemIds', s')) :
    GreedyReuse.Assigns s₀.itemMatches previous (done ++ items) itemIds' := by
  induction items generalizing s done itemIds with
  | nil =>
    cases hloop
    rwa [List.append_nil]
  | cons item items ih =>
    obtain ⟨-, -, hloop⟩ := bind_eq_ok.1 hloop
    obtain ⟨⟨itemId, s₁⟩, hchoose, hloop⟩ := bind_eq_ok.1 hloop
    obtain ⟨s₂, hsight, hloop⟩ := bind_eq_ok.1 hloop
    obtain ⟨hext, hid⟩ := chooseItem_extends h.numbered hchoose
    have hchosen := chooseItem_chosen h.numbered (hprevious.mono h.extension) h.named.known hmode hstart hchoose
    rw [List.append_cons]
    exact ih (((h.extend hext).concat hid).extend (sightItem_extends hsight))
      (hdone.concat (chosen_start h.extension hprevious hchosen)) hloop

/-! ## Requests, responses and checkpoints -/

/-- Every id that a snapshot, an installed history or a call holds is that of an item. -/
structure Inv (s : TraceReducer R) : Prop where
  numbered : s.Numbered
  snapshots : ∀ threadId itemIds, s.threadConversationSnapshots.lookup threadId = some itemIds → s.Known itemIds
  pending : ∀ threadId itemIds, s.pendingCompactionReplacementItemIds.lookup threadId = some itemIds → s.Known itemIds
  calls : ∀ entry ∈ s.inferenceCalls, s.Known (entry.2.requestItemIds ++ entry.2.responseItemIds)

def requestItemIdsOf (s : TraceReducer R) (inferenceCallId : String) : Option (List String) :=
  (s.inferenceCalls.lookup inferenceCallId).map InferenceCall.requestItemIds

/-- What a whole event keeps. -/
structure Keeps (s s' : TraceReducer R) : Prop where
  identity : ∀ itemId identity, s.identityOf itemId = some identity → s'.identityOf itemId = some identity
  requests : ∀ inferenceCallId itemIds, s.requestItemIdsOf inferenceCallId = some itemIds →
    s'.requestItemIdsOf inferenceCallId = some itemIds

theorem Inv.extend (h : s.Inv) (hs : s.Extends s') : s'.Inv where
  numbered := hs.numbered h.numbered
  snapshots := by
    rw [hs.snapshots]
    exact fun threadId itemIds hids => (h.snapshots threadId itemIds hids).mono hs
  pending := by
    rw [hs.pending]
    exact fun threadId itemIds hids => (h.pending threadId itemIds hids).mono hs
  calls := by
    rw [hs.calls]
    exact fun entry hentry => (h.calls entry hentry).mono hs

theorem Inv.previousSnapshot (h : s.Inv) (threadId : String) {snapshotOverride}
    (hoverride : ∀ itemIds, snapshotOverride = some itemIds → s.Known itemIds) :
    s.Known (s.previousSnapshot threadId snapshotOverride) := by
  unfold TraceReducer.previousSnapshot
  cases hsome : snapshotOverride with
  | some itemIds => exact hoverride itemIds hsome
  | none =>
    cases hsnapshot : s.threadConversationSnapshots.lookup threadId with
    | some itemIds => exact h.snapshots threadId itemIds hsnapshot
    | none => exact fun itemId hmem => by cases hmem

theorem Inv.setSnapshot (h : s.Inv) {threadId itemIds} (hknown : s.Known itemIds) :
    (s.setSnapshot threadId itemIds).Inv where
  numbered := h.numbered
  snapshots := by
    intro threadId' itemIds' hids
    rw [TraceReducer.setSnapshot, SortedEntries.lookup_insert] at hids
    split at hids
    · cases hids
      exact hknown
    · exact h.snapshots threadId' itemIds' hids
  pending := h.pending
  calls := h.calls

theorem appendThreadConversationItems_extends {threadId itemIds}
    (h : s.appendThreadConversationItems threadId itemIds = .ok s') : s.Extends s' := by
  unfold appendThreadConversationItems at h
  split at h
  · cases h
  · cases h
    exact ⟨fun _ _ hid => hid, fun hs => hs, rfl, rfl, rfl⟩

theorem reconcileConversationItems_progress (hs : s.Numbered) {items context itemIds}
    (h : reconcileConversationItems linking s items context = .ok (itemIds, s')) : Progress s s' items itemIds := by
  obtain ⟨⟨itemIds', s₁⟩, hloop, h⟩ := bind_eq_ok.1 h
  obtain ⟨effect, -, h⟩ := bind_eq_ok.1 h
  cases h
  exact (reconcileLoop_progress (.start hs) hloop).extend (extends_withEffect s₁ effect)

theorem reconcileConversationItems_assigns (hs : s.Numbered) {items context} (hmode : context.mode = .fullSnapshot) (hstart : context.startIndex = 0)
    (hprevious : s.Known (s.previousSnapshot context.threadId context.snapshotOverride)) {itemIds}
    (h : reconcileConversationItems linking s items context = .ok (itemIds, s')) :
    GreedyReuse.Assigns s.itemMatches (s.previousSnapshot context.threadId context.snapshotOverride) items itemIds := by
  obtain ⟨⟨itemIds', s₁⟩, hloop, h⟩ := bind_eq_ok.1 h
  obtain ⟨effect, -, h⟩ := bind_eq_ok.1 h
  cases h
  exact reconcileLoop_assigns hmode hstart hprevious (.start hs) .nil hloop

theorem reconcileDetachedConversationItems_progress (hs : s.Numbered) {items context itemIds}
    (h : reconcileDetachedConversationItems linking s items context = .ok (itemIds, s')) : Progress s s' items itemIds := by
  obtain ⟨⟨itemIds', s₁⟩, hloop, h⟩ := bind_eq_ok.1 h
  obtain ⟨effect, -, h⟩ := bind_eq_ok.1 h
  cases h
  exact (reconcileDetachedLoop_progress (.start hs) hloop).extend (extends_withEffect s₁ effect)

/-- What a full request is compared with: the history a compaction has installed, or the last snapshot. -/
def baseline (s : TraceReducer R) (threadId : String) : List String :=
  s.previousSnapshot threadId (s.pendingCompactionReplacementItemIds.lookup threadId)

section Request

variable {time : Int} {inferenceCallId threadId codexTurnId : String} {payload : Payload} {itemIds : List String}

theorem reduceInferenceRequest_spec (h : s.Inv)
    (hreduce : reduceInferenceRequest serde linking s time inferenceCallId threadId codexTurnId payload =
      .ok (itemIds, s')) :
    s'.Inv ∧ s'.Known itemIds ∧ s'.inferenceCalls = s.inferenceCalls ∧
      (∀ itemId identity, s.identityOf itemId = some identity → s'.identityOf itemId = some identity) ∧
      ∀ json items, payload.json = some json → json.str "previous_response_id" = none →
        requestItems serde payload json = .ok items →
        s'.Named itemIds items ∧ GreedyReuse.Assigns s.itemMatches (s.baseline threadId) items itemIds := by
  obtain ⟨json, hjson, hreduce⟩ := bind_eq_ok.1 hreduce
  obtain ⟨items, hitems, hreduce⟩ := bind_eq_ok.1 hreduce
  have hread : payload.json = some json := by
    unfold readPayloadJson at hjson
    split at hjson
    next value hvalue => rw [hvalue, Except.ok.inj hjson]
    next => cases hjson
  split at hreduce
  next previousResponseId hprevious =>
    cases hcalls : s.itemsOfResponse threadId previousResponseId with
    | none =>
      rw [hcalls] at hreduce
      cases hreduce
    | some previousItems =>
      rw [hcalls] at hreduce
      obtain ⟨⟨deltaItemIds, s₁⟩, hreconcile, hreduce⟩ := bind_eq_ok.1 hreduce
      obtain ⟨s₂, happend, hreduce⟩ := bind_eq_ok.1 hreduce
      cases hreduce
      have hprogress := reconcileConversationItems_progress h.numbered hreconcile
      have hext := hprogress.extension.trans (appendThreadConversationItems_extends happend)
      have hprefix : s.Known previousItems := by
        obtain ⟨entry, hentry, rfl⟩ := Option.map_eq_some_iff.1 hcalls
        exact h.calls entry (List.mem_of_find?_eq_some hentry)
      have hknown : s₂.Known (previousItems ++ deltaItemIds) := by
        intro itemId hmem
        rcases List.mem_append.1 hmem with hmem | hmem
        · exact hprefix.mono hext itemId hmem
        · exact hprogress.named.known.mono (appendThreadConversationItems_extends happend) itemId hmem
      refine ⟨(h.extend hext).setSnapshot hknown, hknown, hext.calls, hext.identity, ?_⟩
      intro json' items' hjson' hfull
      obtain rfl : json = json' := Option.some.inj (hread.symm.trans hjson')
      rw [hprevious] at hfull
      cases hfull
  next hnone =>
    dsimp only at hreduce
    obtain ⟨⟨requestItemIds, s₁⟩, hreconcile, hreduce⟩ := bind_eq_ok.1 hreduce
    obtain ⟨s₂, happend, hreduce⟩ := bind_eq_ok.1 hreduce
    cases hreduce
    have hprogress := reconcileConversationItems_progress h.numbered hreconcile
    have happended := appendThreadConversationItems_extends happend
    have hext := hprogress.extension.trans happended
    have hknown : s₂.Known requestItemIds := hprogress.named.known.mono happended
    have hinv := h.extend hext
    have hcleared : Inv { s₂ with
        pendingCompactionReplacementItemIds :=
          s₂.pendingCompactionReplacementItemIds.filter fun entry => entry.1 ≠ threadId } := by
      refine ⟨hinv.numbered, hinv.snapshots, ?_, hinv.calls⟩
      intro threadId' itemIds' hids
      rw [SortedEntries.lookup_remove] at hids
      split at hids
      · cases hids
      · exact hinv.pending threadId' itemIds' hids
    refine ⟨hcleared.setSnapshot hknown, hknown, hext.calls, hext.identity, ?_⟩
    intro json' items' hjson' _ hitems'
    obtain rfl : json = json' := Option.some.inj (hread.symm.trans hjson')
    obtain rfl : items = items' := Except.ok.inj (hitems.symm.trans hitems')
    have hnamed : s₂.Named requestItemIds items := hprogress.named.mono happended
    exact ⟨hnamed, reconcileConversationItems_assigns h.numbered rfl rfl
      (h.previousSnapshot threadId (h.pending threadId)) hreconcile⟩

end Request

theorem updateCall_keeps (s : TraceReducer R) (inferenceCallId : String) {change : InferenceCall → InferenceCall}
    (hchange : ∀ call, (change call).requestItemIds = call.requestItemIds) :
    s.Keeps (s.updateCall inferenceCallId change) where
  identity _ _ h := h
  requests := by
    intro id itemIds hids
    unfold requestItemIdsOf at hids
    unfold requestItemIdsOf updateCall
    generalize s.inferenceCalls = calls at hids ⊢
    induction calls with
    | nil => cases hids
    | cons entry entries ih =>
      obtain ⟨key, call⟩ := entry
      rw [SortedEntries.lookup_cons] at hids
      have hhead : ∀ call' : InferenceCall, call'.requestItemIds = call.requestItemIds →
          (((key, call') :: entries.map fun entry =>
            if entry.1 = inferenceCallId then (entry.1, change entry.2) else entry).lookup id).map
              InferenceCall.requestItemIds = some itemIds := by
        intro call' hcall
        rw [SortedEntries.lookup_cons]
        split
        next hkey =>
          rw [if_pos hkey] at hids
          rw [Option.map_some, hcall]
          exact hids
        next hkey =>
          rw [if_neg hkey] at hids
          exact ih hids
      rw [List.map_cons]
      split
      · exact hhead _ (hchange call)
      · exact hhead _ rfl

theorem Inv.updateCall (h : s.Inv) (inferenceCallId : String) {change : InferenceCall → InferenceCall}
    (hchange : ∀ call, (change call).requestItemIds = call.requestItemIds)
    (hknown : ∀ call, (change call).responseItemIds = call.responseItemIds ∨ s.Known (change call).responseItemIds) :
    (s.updateCall inferenceCallId change).Inv where
  numbered := h.numbered
  snapshots := h.snapshots
  pending := h.pending
  calls := by
    intro entry hentry
    obtain ⟨before, hbefore, rfl⟩ := List.mem_map.1 hentry
    have hold := h.calls before hbefore
    split
    next =>
      intro itemId hmem
      rw [hchange] at hmem
      rcases List.mem_append.1 hmem with hmem | hmem
      · exact hold itemId (List.mem_append_left _ hmem)
      · rcases hknown before.2 with hsame | hnew
        · rw [hsame] at hmem
          exact hold itemId (List.mem_append_right _ hmem)
        · exact hnew itemId hmem
    next => exact hold

theorem Keeps.trans (h : s₀.Keeps s) (h' : s.Keeps s') : s₀.Keeps s' where
  identity itemId identity hid := h'.identity _ _ (h.identity itemId identity hid)
  requests inferenceCallId itemIds hids := h'.requests _ _ (h.requests inferenceCallId itemIds hids)

theorem Extends.keeps (h : s.Extends s') : s.Keeps s' where
  identity := h.identity
  requests := by
    intro inferenceCallId itemIds hids
    unfold requestItemIdsOf at hids ⊢
    rwa [h.calls]

theorem reduceInferenceResponse_spec (h : s.Inv) {time : Int} {inferenceCallId payload itemIds}
    (hreduce : reduceInferenceResponse serde linking s time inferenceCallId payload = .ok (itemIds, s')) :
    s'.Inv ∧ s'.Known itemIds ∧ s.Keeps s' := by
  obtain ⟨json, -, hreduce⟩ := bind_eq_ok.1 hreduce
  cases houtput : (json.get "output_items").bind Value.asArray with
  | none => rw [houtput] at hreduce; cases hreduce
  | some outputItems =>
    cases hcall : s.inferenceCalls.lookup inferenceCallId with
    | none => rw [houtput, hcall] at hreduce; cases hreduce
    | some inference =>
      rw [houtput, hcall] at hreduce
      obtain ⟨items, -, hreduce⟩ := bind_eq_ok.1 hreduce
      obtain ⟨⟨responseItemIds, s₁⟩, hreconcile, hreduce⟩ := bind_eq_ok.1 hreduce
      obtain ⟨s₂, happend, hreduce⟩ := bind_eq_ok.1 hreduce
      have hprogress := reconcileConversationItems_progress h.numbered hreconcile
      have happended := appendThreadConversationItems_extends happend
      have hext := hprogress.extension.trans happended
      have hknown : s₂.Known responseItemIds := hprogress.named.known.mono happended
      have hinv := h.extend hext
      have hold : s₂.Known ((s₂.threadConversationSnapshots.lookup inference.threadId).getD []) := by
        cases hsnapshot : s₂.threadConversationSnapshots.lookup inference.threadId with
        | none => exact fun itemId hmem => by cases hmem
        | some itemIds => exact hinv.snapshots inference.threadId itemIds hsnapshot
      have hset : (s₂.setSnapshot inference.threadId
          ((s₂.threadConversationSnapshots.lookup inference.threadId).getD [] ++ responseItemIds)).Inv :=
        hinv.setSnapshot (List.forall_mem_append.2 ⟨hold, hknown⟩)
      obtain ⟨rfl, heq⟩ := Prod.mk.inj (Except.ok.inj hreduce)
      have hkeeps : s.Keeps (s₂.setSnapshot inference.threadId
          ((s₂.threadConversationSnapshots.lookup inference.threadId).getD [] ++ responseItemIds)) :=
        hext.keeps.trans ⟨fun _ _ hid => hid, fun _ _ hids => hids⟩
      split at heq
      · rw [← heq]
        exact ⟨hset, hknown, hkeeps⟩
      · rw [← heq]
        exact ⟨hset.updateCall _ (fun _ => rfl) fun _ => .inl rfl, hknown, hkeeps.trans (updateCall_keeps _ _ fun _ => rfl)⟩

theorem reduceCompactionCheckpoint_spec (h : s.Numbered) {time : Int} {threadId codexTurnId compactionId payload checkpoint}
    (hreduce : reduceCompactionCheckpoint serde linking s time threadId codexTurnId compactionId payload =
      .ok (checkpoint, s')) :
    s.Extends s' ∧ s'.Known checkpoint.replacementItemIds := by
  obtain ⟨json, -, hreduce⟩ := bind_eq_ok.1 hreduce
  obtain ⟨inputHistory, -, hreduce⟩ := bind_eq_ok.1 hreduce
  obtain ⟨replacementHistory, -, hreduce⟩ := bind_eq_ok.1 hreduce
  obtain ⟨inputItems, -, hreduce⟩ := bind_eq_ok.1 hreduce
  obtain ⟨replacementItems, -, hreduce⟩ := bind_eq_ok.1 hreduce
  obtain ⟨⟨inputItemIds, s₁⟩, hinput, hreduce⟩ := bind_eq_ok.1 hreduce
  have hinputs := reconcileDetachedConversationItems_progress h hinput
  have hmarker : s₁.Extends (s₁.createConversationItem threadId (some codexTurnId) time compactionMarker
      [.compaction compactionId]).2 := (createConversationItem_spec hinputs.numbered (Prod.eta _).symm).1
  obtain ⟨⟨replacementItemIds, s₂⟩, hreplacement, hreduce⟩ := bind_eq_ok.1 hreduce
  have hreplaced := reconcileDetachedConversationItems_progress (hmarker.numbered hinputs.numbered) hreplacement
  obtain ⟨s₃, happend₁, hreduce⟩ := bind_eq_ok.1 hreduce
  obtain ⟨s₄, happend₂, hreduce⟩ := bind_eq_ok.1 hreduce
  obtain ⟨s₅, happend₃, hreduce⟩ := bind_eq_ok.1 hreduce
  cases hreduce
  have happended := ((appendThreadConversationItems_extends happend₁).trans
    (appendThreadConversationItems_extends happend₂)).trans (appendThreadConversationItems_extends happend₃)
  exact ⟨((hinputs.extension.trans hmarker).trans hreplaced.extension).trans happended,
    hreplaced.named.known.mono happended⟩

/-! ## Events -/

theorem startThread_extends {threadId} (h : s.startThread threadId = .ok s') : s.Extends s' := by
  unfold startThread at h
  split at h
  · cases h
  · cases h
    exact ⟨fun _ _ hid => hid, fun hs => hs, rfl, rfl, rfl⟩

theorem startCodexTurn_extends {codexTurnId threadId} (h : s.startCodexTurn codexTurnId threadId = .ok s') :
    s.Extends s' := by
  unfold startCodexTurn at h
  split at h
  · cases h
  · split at h
    · cases h
    · cases h
      exact ⟨fun _ _ hid => hid, fun hs => hs, rfl, rfl, rfl⟩

theorem completeInferenceCall_spec (h : s.Inv) {time : Int} {inferenceCallId responseId payload}
    (hcomplete : s.completeInferenceCall serde linking time inferenceCallId responseId payload = .ok s') :
    s'.Inv ∧ s.Keeps s' := by
  unfold completeInferenceCall at hcomplete
  by_cases hcall : (s.inferenceCalls.lookup inferenceCallId).isNone = true
  · rw [if_pos hcall] at hcomplete
    cases hcomplete
  · rw [if_neg hcall] at hcomplete
    cases payload with
    | none =>
      cases hcomplete
      exact ⟨h.updateCall _ (fun _ => rfl) fun _ => .inl rfl, updateCall_keeps _ _ fun _ => rfl⟩
    | some payload =>
      obtain ⟨⟨itemIds, s₁⟩, hreduce, hcomplete⟩ := bind_eq_ok.1 hcomplete
      cases hcomplete
      obtain ⟨hinv, hknown, hkeeps⟩ := reduceInferenceResponse_spec h hreduce
      exact ⟨hinv.updateCall _ (fun _ => rfl) fun _ => .inr hknown, hkeeps.trans (updateCall_keeps _ _ fun _ => rfl)⟩

theorem reduceCompactionInstalledEvent_spec (h : s.Inv) {time : Int} {threadId codexTurnId compactionId payload}
    (hinstall : s.reduceCompactionInstalledEvent serde linking time threadId codexTurnId compactionId payload = .ok s') :
    s'.Inv ∧ s.Keeps s' := by
  unfold reduceCompactionInstalledEvent at hinstall
  by_cases hinstalled : (s.compactions.lookup compactionId).isSome = true
  · rw [if_pos hinstalled] at hinstall
    cases hinstall
  · rw [if_neg hinstalled] at hinstall
    by_cases hthread : (s.threads.lookup threadId).isNone = true
    · rw [if_pos hthread] at hinstall
      cases hinstall
    · rw [if_neg hthread] at hinstall
      obtain ⟨-, -, hinstall⟩ := bind_eq_ok.1 hinstall
      obtain ⟨⟨checkpoint, s₁⟩, hreduce, hinstall⟩ := bind_eq_ok.1 hinstall
      cases hinstall
      obtain ⟨hext, hknown⟩ := reduceCompactionCheckpoint_spec h.numbered hreduce
      have hinv := h.extend hext
      refine ⟨⟨hinv.numbered, hinv.snapshots, ?_, hinv.calls⟩, ⟨hext.identity, hext.keeps.requests⟩⟩
      intro threadId' itemIds hids
      rw [SortedEntries.lookup_insert] at hids
      split at hids
      · cases hids
        exact hknown
      · exact hinv.pending threadId' itemIds hids

theorem startInferenceCall_spec (h : s.Inv) {time : Int} {inferenceCallId threadId codexTurnId payload}
    (hstart : s.startInferenceCall serde linking time inferenceCallId threadId codexTurnId payload = .ok s') :
    s'.Inv ∧ s.Keeps s' ∧
      ∀ json items, payload.json = some json → json.str "previous_response_id" = none →
        requestItems serde payload json = .ok items →
        ∃ itemIds, s'.requestItemIdsOf inferenceCallId = some itemIds ∧ s'.Named itemIds items ∧
          GreedyReuse.Assigns s.itemMatches (s.baseline threadId) items itemIds := by
  unfold startInferenceCall at hstart
  by_cases hold : (s.inferenceCalls.lookup inferenceCallId).isSome = true
  · rw [if_pos hold] at hstart
    cases hstart
  · rw [if_neg hold] at hstart
    have hnew : s.requestItemIdsOf inferenceCallId = none := by
      rw [requestItemIdsOf, Option.not_isSome_iff_eq_none.1 hold]
      rfl
    obtain ⟨-, -, hstart⟩ := bind_eq_ok.1 hstart
    obtain ⟨⟨requestItemIds, s₁⟩, hreduce, hstart⟩ := bind_eq_ok.1 hstart
    dsimp only at hstart
    by_cases hthread : (s₁.threads.lookup threadId).isNone = true
    · rw [if_pos hthread] at hstart
      cases hstart
    · rw [if_neg hthread] at hstart
      cases hstart
      obtain ⟨hinv, hknown, hcalls, hidentity, hfull⟩ := reduceInferenceRequest_spec h hreduce
      have hget : ∀ (call : InferenceCall) (id : String),
          ((SortedEntries.insert inferenceCallId call s₁.inferenceCalls).lookup id).map InferenceCall.requestItemIds =
            if id = inferenceCallId then some call.requestItemIds else s.requestItemIdsOf id := by
        intro call id
        rw [SortedEntries.lookup_insert, hcalls]
        split <;> rfl
      refine ⟨⟨hinv.numbered, hinv.snapshots, hinv.pending, ?_⟩, ⟨hidentity, ?_⟩, ?_⟩
      · intro entry hentry
        rcases SortedEntries.mem_insert hentry with rfl | hold
        · rw [List.append_nil]
          exact hknown
        · exact hinv.calls entry hold
      · intro id itemIds hids
        refine (hget _ id).trans ?_
        rw [if_neg]
        · exact hids
        · rintro rfl
          rw [hnew] at hids
          cases hids
      · intro json items hjson hprevious hitems
        obtain ⟨hnamed, hassigns⟩ := hfull json items hjson hprevious hitems
        exact ⟨requestItemIds, (hget _ inferenceCallId).trans (if_pos rfl), hnamed, hassigns⟩

end TraceReducer

open TraceReducer

variable {R : Type} {serde : Serde} {linking : Linking R} {s s' : TraceReducer R}

theorem applyEvent_spec (h : s.Inv) {event} (hevent : applyEvent serde linking s event = .ok s') :
    s'.Inv ∧ s.Keeps s' := by
  cases event with
  | threadStarted threadId =>
    have hext := startThread_extends hevent
    exact ⟨h.extend hext, hext.keeps⟩
  | codexTurnStarted codexTurnId threadId =>
    have hext := startCodexTurn_extends hevent
    exact ⟨h.extend hext, hext.keeps⟩
  | inferenceStarted time inferenceCallId threadId codexTurnId payload =>
    obtain ⟨hinv, hkeeps, -⟩ := startInferenceCall_spec h hevent
    exact ⟨hinv, hkeeps⟩
  | inferenceEnded time inferenceCallId responseId payload => exact completeInferenceCall_spec h hevent
  | compactionInstalled time threadId codexTurnId compactionId payload =>
    exact reduceCompactionInstalledEvent_spec h hevent
  | other effect =>
    obtain ⟨result, -, hevent⟩ := bind_eq_ok.1 hevent
    cases hevent
    have hext := extends_withEffect s result
    exact ⟨h.extend hext, hext.keeps⟩

theorem replay_spec (h : s.Inv) {events} (hreplay : replay serde linking s events = .ok s') :
    s'.Inv ∧ s.Keeps s' := by
  induction events generalizing s with
  | nil =>
    cases hreplay
    exact ⟨h, fun _ _ hid => hid, fun _ _ hids => hids⟩
  | cons event events ih =>
    obtain ⟨s₁, hevent, hreplay⟩ := bind_eq_ok.1 hreplay
    obtain ⟨hinv, hkeeps⟩ := applyEvent_spec h hevent
    obtain ⟨hinv', hkeeps'⟩ := ih hinv hreplay
    exact ⟨hinv', hkeeps.trans hkeeps'⟩

theorem inv_start (rest : R) : Inv ({ rest } : TraceReducer R) where
  numbered _ h := by cases h
  snapshots _ _ h := by cases h
  pending _ _ h := by cases h
  calls _ h := by cases h

/-! ## Every full request -/

def fullRequest (serde : Serde) : TraceEvent R → Option (String × String × List NormalizedConversationItem)
  | .inferenceStarted _ inferenceCallId threadId _ payload => do
    let json ← payload.json
    if (json.str "previous_response_id").isSome then none
    else
      let items ← (requestItems serde payload json).toOption
      some (inferenceCallId, threadId, items)
  | _ => none

/-- The call's snapshot: the ids are distinct, and the item of the one at each position matches the payload item. -/
def NamesOnce (s : TraceReducer R) (inferenceCallId : String) (items : List NormalizedConversationItem) : Prop :=
  ∃ itemIds, s.requestItemIdsOf inferenceCallId = some itemIds ∧ itemIds.Nodup ∧
    List.Forall₂ (fun itemId item => s.itemMatches itemId item = true) itemIds items

/-- The snapshot of every full request of the trace names each item once, then and after whatever is reduced later. -/
def SnapshotsNameOnce (serde : Serde) (linking : Linking R) (rest : R) (events : List (TraceEvent R)) : Prop :=
  ∀ before request later after s s' s'' inferenceCallId threadId items,
    events = before ++ request :: (later ++ after) → fullRequest serde request = some (inferenceCallId, threadId, items) →
    replay serde linking { rest } before = .ok s → applyEvent serde linking s request = .ok s' →
    replay serde linking s' later = .ok s'' → NamesOnce s'' inferenceCallId items

/-- A payload item that matches the baseline's id at its position finds that id free. -/
def FreeInPlace (s : TraceReducer R) (threadId : String) (items : List NormalizedConversationItem) : Prop :=
  ∀ q itemId, GreedyReuse.InPlace s.itemMatches (s.baseline threadId) items q itemId →
    GreedyReuse.Free s.itemMatches (s.baseline threadId) items q itemId

def RequestsFreeInPlace (serde : Serde) (linking : Linking R) (rest : R) (events : List (TraceEvent R)) : Prop :=
  ∀ before request after s s' inferenceCallId threadId items,
    events = before ++ request :: after → fullRequest serde request = some (inferenceCallId, threadId, items) →
    replay serde linking { rest } before = .ok s → applyEvent serde linking s request = .ok s' →
    FreeInPlace s threadId items

theorem fullRequest_spec (h : s.Inv) {request inferenceCallId threadId items} (hfull : fullRequest serde request = some (inferenceCallId, threadId, items))
    (hevent : applyEvent serde linking s request = .ok s') :
    ∃ itemIds, s'.requestItemIdsOf inferenceCallId = some itemIds ∧ s'.Named itemIds items ∧
      GreedyReuse.Assigns s.itemMatches (s.baseline threadId) items itemIds := by
  cases request with
  | inferenceStarted time callId thread turn payload =>
    obtain ⟨json, hjson, hfull⟩ := Option.bind_eq_some_iff.1 hfull
    split at hfull
    · cases hfull
    next hprevious =>
      obtain ⟨items', hitems, hfull⟩ := Option.bind_eq_some_iff.1 hfull
      cases hfull
      obtain ⟨-, -, hspec⟩ := startInferenceCall_spec h hevent
      refine hspec json items hjson (by simpa using hprevious) ?_
      cases hread : requestItems serde payload json with
      | error e => rw [hread] at hitems; cases hitems
      | ok read => rw [hread] at hitems; cases hitems; rfl
  | _ => cases hfull

/-- One full request, in whatever state it has left. -/
theorem namesOnce_iff {s''} (hkeeps : s'.Keeps s'') {threadId inferenceCallId items itemIds}
    (hids : s'.requestItemIdsOf inferenceCallId = some itemIds) (hnamed : s'.Named itemIds items)
    (hassigns : GreedyReuse.Assigns s.itemMatches (s.baseline threadId) items itemIds) :
    NamesOnce s'' inferenceCallId items ↔ FreeInPlace s threadId items := by
  unfold FreeInPlace
  rw [← hassigns.nodup_iff s.difunctional_itemMatches]
  have hids' := hkeeps.requests _ _ hids
  constructor
  · rintro ⟨itemIds', hsome, hnodup, -⟩
    rw [hids'] at hsome
    cases hsome
    exact hnodup
  · intro hnodup
    refine ⟨itemIds, hids', hnodup, hnamed.imp ?_⟩
    intro itemId item hid
    exact itemMatches_iff.2 (hkeeps.identity _ _ hid)

/-- **Snapshots name each item once** exactly when no item matches the id at its position of the baseline after an
earlier item has been given that id. -/
theorem snapshotsNameOnce_iff (serde : Serde) (linking : Linking R) (rest : R) (events : List (TraceEvent R)) :
    SnapshotsNameOnce serde linking rest events ↔ RequestsFreeInPlace serde linking rest events := by
  constructor
  · intro h before request after s s' inferenceCallId threadId items hevents hfull hbefore hevent
    obtain ⟨hinv, -⟩ := replay_spec (inv_start rest) hbefore
    obtain ⟨itemIds, hids, hnamed, hassigns⟩ := fullRequest_spec hinv hfull hevent
    rw [← namesOnce_iff ⟨fun _ _ hid => hid, fun _ _ hids => hids⟩ hids hnamed hassigns]
    exact h before request [] after s s' s' inferenceCallId threadId items hevents hfull hbefore hevent rfl
  · intro h before request later after s s' s'' inferenceCallId threadId items hevents hfull hbefore hevent hlater
    obtain ⟨hinv, -⟩ := replay_spec (inv_start rest) hbefore
    obtain ⟨hinv', -⟩ := applyEvent_spec hinv hevent
    obtain ⟨-, hkeeps⟩ := replay_spec hinv' hlater
    obtain ⟨itemIds, hids, hnamed, hassigns⟩ := fullRequest_spec hinv hfull hevent
    rw [namesOnce_iff hkeeps hids hnamed hassigns]
    exact h before request (later ++ after) s s' inferenceCallId threadId items hevents hfull hbefore hevent

/-! ### The last item of a request, sent twice in the next one -/

/-- No payload below has JSON in a text, and none has an agent message. -/
def noSerde : Serde where
  toString _ := none
  fromStr _ := none
  asI64 _ := none
  responseItem _ := .ok none

def noLinking : Linking Unit where
  attach _ _ _ _ := .ok ((), [])
  flushPendingCodeCellStarts _ := .ok ((), [])

def userMessage (text : String) : Value :=
  .object [
    ("content", .array [.object [("text", .string text), ("type", .string "input_text")]]),
    ("role", .string "user"),
    ("type", .string "message")]

def userRequest (inferenceCallId : String) (texts : List String) : TraceEvent Unit :=
  .inferenceStarted 0 inferenceCallId "thread-root" "turn-1" {
    ref := { rawPayloadId := "request-" ++ inferenceCallId }
    json := some (.object [("input", .array (texts.map userMessage))]) }

def firstRequest : List (TraceEvent Unit) :=
  [.threadStarted "thread-root", .codexTurnStarted "turn-1" "thread-root", userRequest "inference-1" ["hi", "ok"]]

def replayed (events : List (TraceEvent Unit)) : TraceReducer Unit :=
  ((replay noSerde noLinking { rest := () } events).toOption).getD { rest := () }

def okItem : NormalizedConversationItem where
  role := .user
  channel := none
  kind := .message
  agentMessage := none
  body := { parts := [.text "ok"] }
  callId := none

/-- The first `ok` is found in the second place; the second one is in place there. -/
theorem not_snapshotsNameOnce_repeated :
    ¬ SnapshotsNameOnce noSerde noLinking () (firstRequest ++ [userRequest "inference-2" ["ok", "ok"]]) := by
  intro h
  have hrequest := h firstRequest (userRequest "inference-2" ["ok", "ok"]) [] [] (replayed firstRequest)
    (replayed (firstRequest ++ [userRequest "inference-2" ["ok", "ok"]]))
    (replayed (firstRequest ++ [userRequest "inference-2" ["ok", "ok"]])) "inference-2" "thread-root" [okItem, okItem]
    rfl (by decide +kernel) rfl rfl rfl
  obtain ⟨itemIds, hids, hnodup, -⟩ := hrequest
  cases hids
  exact absurd hnodup (by decide)

end Codex.Trace
