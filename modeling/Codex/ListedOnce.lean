/-
Threads listed page by page, each page from the anchor of the one before it.

Where ids break ties, and timestamps are read as they were written, a page ends where its anchor is.
-/
import Codex.Lib.KeysetPaging
import Codex.Lib.Results
import Codex.ThreadListing
import Mathlib.Logic.Relation

namespace Codex.Listing

open EpochMillis KeysetPaging SeekPaging

variable {T D : Type} [LinearOrder T]

/-! ## Keys and anchors -/

/-- The condition of the anchor, of a key. -/
def SortDirection.behind (direction : SortDirection) (tiebreaker : Bool) (anchor : Anchor T) (key : OrderKey T) : Bool :=
  let anchorTs := (datetimeToEpochMillis anchor.ts).toInt
  direction.lt anchorTs (ofLex key).1 ||
    (tiebreaker && anchor.id.any fun (anchorId : T) =>
      (ofLex key).1 = anchorTs && direction.lt (anchorId : WithBot T) (ofLex key).2)

theorem SortDirection.behind_iff {direction : SortDirection} {tiebreaker : Bool} {anchor : Anchor T} {key : OrderKey T} :
    direction.behind tiebreaker anchor key = true ↔
      direction.lt (datetimeToEpochMillis anchor.ts).toInt (ofLex key).1 = true ∨
        tiebreaker = true ∧ ∃ anchorId, anchor.id = some anchorId ∧
          (ofLex key).1 = (datetimeToEpochMillis anchor.ts).toInt ∧
          direction.lt (anchorId : WithBot T) (ofLex key).2 = true := by
  simp only [SortDirection.behind, Bool.or_eq_true, Bool.and_eq_true, Option.any_eq_true, decide_eq_true_eq]

theorem SortDirection.behind_of_le {direction : SortDirection} {tiebreaker : Bool} {anchor : Anchor T} {a b : OrderKey T}
    (hle : direction.le a b) (h : direction.behind tiebreaker anchor a = true) : direction.behind tiebreaker anchor b = true := by
  rw [SortDirection.behind_iff] at h ⊢
  cases direction with
  | asc =>
    rw [SortDirection.le, Prod.Lex.le_iff] at hle
    simp only [SortDirection.lt, decide_eq_true_eq] at h ⊢
    rcases h with hts | ⟨htie, anchorId, hid, hts, hlt⟩
    · left
      rcases hle with hcolumn | ⟨hcolumn, -⟩ <;> omega
    · rcases hle with hcolumn | ⟨hcolumn, hids⟩
      · left
        omega
      · exact .inr ⟨htie, anchorId, hid, hcolumn.symm.trans hts, lt_of_lt_of_le hlt hids⟩
  | desc =>
    rw [SortDirection.le, Prod.Lex.le_iff] at hle
    simp only [SortDirection.lt, decide_eq_true_eq] at h ⊢
    rcases h with hts | ⟨htie, anchorId, hid, hts, hlt⟩
    · left
      rcases hle with hcolumn | ⟨hcolumn, -⟩ <;> omega
    · rcases hle with hcolumn | ⟨hcolumn, hids⟩
      · left
        omega
      · exact .inr ⟨htie, anchorId, hid, hcolumn.trans hts, lt_of_le_of_lt hids hlt⟩

/-- The order of a listing and its anchors. -/
def keyset (direction : SortDirection) (tiebreaker : Bool) : Keyset (OrderKey T) (Anchor T) where
  le := direction.le
  total a b := by
    cases direction
    · exact le_total a b
    · exact le_total b a
  trans hab hbc := by
    cases direction
    · exact le_trans hab hbc
    · exact le_trans hbc hab
  antisymm hab hba := by
    cases direction
    · exact le_antisymm hab hba
    · exact le_antisymm hba hab
  anchor key := {
    ts := (epochMillisToDatetime (Int64.ofInt (ofLex key).1)).getD ⟨0, by decide, by decide⟩
    id := (ofLex key).2 }
  after := direction.behind tiebreaker
  after_of_le := SortDirection.behind_of_le

/-! ## Related threads -/

variable {edge : SpawnEdge T} {row : Joined T D} {thread : ThreadRow T D} {α : Type*} {size : Nat}
  {pageSize : UInt64} {anchor : Option (Anchor T)}

theorem StateDb.join_eq_some {db : StateDb T D} (h : db.join edge = some row) :
    row.1 ∈ db.threads ∧ row.1.id = edge.childThreadId := by
  obtain ⟨thread, hfind, rfl⟩ := Option.map_eq_some_iff.1 h
  exact ⟨List.mem_of_find?_eq_some hfind, of_decide_eq_true (List.find?_some hfind :)⟩

theorem StateDb.join_of_mem {db : StateDb T D} (h : thread ∈ db.threads)
    (hid : thread.id = edge.childThreadId) : db.join edge = some (thread, some edge.parentThreadId) := by
  have hsome : (db.threads.find? fun row => row.id = edge.childThreadId).isSome :=
    List.find?_isSome.2 ⟨thread, h, decide_eq_true hid⟩
  obtain ⟨found, hfind⟩ := Option.isSome_iff_exists.1 hsome
  have hfound : found.id = edge.childThreadId := of_decide_eq_true (List.find?_some hfind :)
  have hsame : found = thread :=
    List.inj_on_of_nodup_map db.ids (List.mem_of_find?_eq_some hfind) h (hfound.trans hid.symm)
  rw [StateDb.join, hfind, hsame]
  rfl

def relatedEdges (edges : List (SpawnEdge T)) : ThreadRelationFilter T → List (SpawnEdge T)
  | .directChildrenOf parentThreadId => edges.filter fun edge => edge.parentThreadId = parentThreadId
  | .descendantsOf ancestorThreadId =>
    (subtree edges ancestorThreadId).filter fun edge => edge.childThreadId ≠ ancestorThreadId

theorem StateDb.related_some (db : StateDb T D) (relation : ThreadRelationFilter T) :
    db.related (some relation) = (relatedEdges db.edges relation).filterMap db.join := by
  cases relation <;> rfl

theorem relatedEdges_sublist (edges : List (SpawnEdge T)) (relation : ThreadRelationFilter T) :
    (relatedEdges edges relation).Sublist edges := by
  cases relation with
  | directChildrenOf => exact List.filter_sublist
  | descendantsOf ancestorThreadId =>
    refine List.filter_sublist.trans ?_
    rw [subtree, ← Closures.rounds_stable]
    exact List.filter_sublist

theorem StateDb.ids_sublist (db : StateDb T D) (edges : List (SpawnEdge T)) :
    ((edges.filterMap db.join).map fun row => row.1.id).Sublist (edges.map SpawnEdge.childThreadId) := by
  induction edges with
  | nil => exact .slnil
  | cons edge edges ih =>
    cases hjoin : db.join edge with
    | none =>
      rw [List.filterMap_cons_none hjoin]
      exact ih.cons _
    | some row =>
      rw [List.filterMap_cons_some hjoin, List.map_cons, List.map_cons, (StateDb.join_eq_some hjoin).2]
      exact ih.cons_cons _

theorem StateDb.related_ids (db : StateDb T D) (relationFilter : Option (ThreadRelationFilter T)) :
    ((db.related relationFilter).map fun row => row.1.id).Nodup := by
  cases relationFilter with
  | none =>
    rw [StateDb.related, List.map_map]
    exact db.ids
  | some relation =>
    rw [StateDb.related_some]
    exact ((db.ids_sublist _).nodup (((relatedEdges_sublist _ _).map _).nodup db.children))

/-- The thread is the one the relation asks for. -/
def IsRelated (edges : List (SpawnEdge T)) (id : T) : Option (ThreadRelationFilter T) → Prop
  | none => True
  | some (.directChildrenOf parentThreadId) => ⟨parentThreadId, id⟩ ∈ edges
  | some (.descendantsOf ancestorThreadId) =>
    Relation.TransGen (fun parent child => ⟨parent, child⟩ ∈ edges) ancestorThreadId id ∧ id ≠ ancestorThreadId

theorem mem_subtree_iff {edges} {ancestorThreadId : T} :
    edge ∈ subtree edges ancestorThreadId ↔ edge ∈ edges ∧
      Relation.ReflTransGen (fun parent child => ⟨parent, child⟩ ∈ edges) ancestorThreadId edge.parentThreadId := by
  rw [subtree, Closures.mem_collect_iff]
  constructor
  · intro h
    induction h with
    | start hmem hstart =>
      rw [of_decide_eq_true hstart]
      exact ⟨hmem, .refl⟩
    | follows _ hmem hfollows ih =>
      rw [of_decide_eq_true hfollows]
      exact ⟨hmem, ih.2.tail ih.1⟩
  · rintro ⟨hmem, hreach⟩
    generalize hparent : edge.parentThreadId = parent at hreach
    induction hreach generalizing edge with
    | refl => exact .start hmem (decide_eq_true hparent)
    | tail _ hedge ih => exact .follows (ih hedge rfl) hmem (decide_eq_true hparent)

theorem isRelated_iff {edges} {id : T} {relation} :
    IsRelated edges id (some relation) ↔ ∃ edge ∈ relatedEdges edges relation, edge.childThreadId = id := by
  cases relation with
  | directChildrenOf parentThreadId =>
    constructor
    · intro h
      exact ⟨_, List.mem_filter.2 ⟨h, decide_eq_true rfl⟩, rfl⟩
    · rintro ⟨edge, hedge, rfl⟩
      obtain ⟨hmem, hparent⟩ := List.mem_filter.1 hedge
      obtain rfl := of_decide_eq_true hparent
      exact hmem
  | descendantsOf ancestorThreadId =>
    constructor
    · rintro ⟨hreach, hne⟩
      obtain ⟨parent, hparent, hedge⟩ := Relation.TransGen.tail'_iff.1 hreach
      exact ⟨_, List.mem_filter.2 ⟨mem_subtree_iff.2 ⟨hedge, hparent⟩, decide_eq_true hne⟩, rfl⟩
    · rintro ⟨edge, hedge, rfl⟩
      obtain ⟨hmem, hne⟩ := List.mem_filter.1 hedge
      obtain ⟨hedge, hreach⟩ := mem_subtree_iff.1 hmem
      exact ⟨.tail' hreach hedge, of_decide_eq_true hne⟩

theorem StateDb.mem_related_iff {db : StateDb T D} {relationFilter : Option (ThreadRelationFilter T)} :
    thread ∈ (db.related relationFilter).map Prod.fst ↔
      thread ∈ db.threads ∧ IsRelated db.edges thread.id relationFilter := by
  cases relationFilter with
  | none =>
    rw [StateDb.related, List.map_map]
    exact ⟨fun h => ⟨by simpa using h, trivial⟩, fun h => by simpa using h.1⟩
  | some relation =>
    rw [StateDb.related_some, isRelated_iff]
    constructor
    · intro h
      obtain ⟨row, hrow, rfl⟩ := List.mem_map.1 h
      obtain ⟨edge, hedge, hjoin⟩ := List.mem_filterMap.1 hrow
      obtain ⟨hmem, hid⟩ := StateDb.join_eq_some hjoin
      exact ⟨hmem, edge, hedge, hid.symm⟩
    · rintro ⟨hmem, edge, hedge, hid⟩
      exact List.mem_map.2 ⟨_, List.mem_filterMap.2 ⟨edge, hedge, StateDb.join_of_mem hmem hid.symm⟩, rfl⟩

/-! ## Matching rows -/

def matchingRows (db : StateDb T D) (options : ThreadFilterOptions) (relationFilter : Option (ThreadRelationFilter T)) :
    List (Joined T D) :=
  (db.related relationFilter).filter fun row => options.passes row.1

section
variable (db : StateDb T D) (options : ThreadFilterOptions) (relationFilter : Option (ThreadRelationFilter T))

abbrev tiebreakerOf : Bool := includeThreadIdTiebreaker relationFilter options.sortKey

def matchingKeys : List (OrderKey T) :=
  ((matchingRows db options relationFilter).map fun row =>
    orderKey options.sortKey (tiebreakerOf options relationFilter) row.1).insertionSort options.sortDirection.le

abbrev rowKey (row : Joined T D) : OrderKey T := orderKey options.sortKey (tiebreakerOf options relationFilter) row.1

theorem afterAnchor_eq (anchor : Anchor T) (row : Joined T D) :
    afterAnchor options (tiebreakerOf options relationFilter) anchor row.1 =
      options.sortDirection.behind (tiebreakerOf options relationFilter) anchor (rowKey options relationFilter row) := by
  rw [afterAnchor, SortDirection.behind, rowKey, orderKey]
  cases htie : tiebreakerOf options relationFilter with
  | false => rfl
  | true =>
    have hlt : ∀ a b : T, options.sortDirection.lt (a : WithBot T) b = options.sortDirection.lt a b := by
      intro a b
      cases options.sortDirection <;> exact decide_eq_decide.2 WithBot.coe_lt_coe
    simp only [if_true, ofLex_toLex, hlt]

variable {db options relationFilter}

theorem matchingRows_ids : ((matchingRows db options relationFilter).map fun row => row.1.id).Nodup :=
  (db.related_ids relationFilter).sublist (List.filter_sublist.map _)

theorem mem_matchingRows : thread ∈ (matchingRows db options relationFilter).map Prod.fst ↔
      thread ∈ db.threads ∧ IsRelated db.edges thread.id relationFilter ∧ options.passes thread = true := by
  rw [← and_assoc, ← StateDb.mem_related_iff]
  constructor
  · intro h
    obtain ⟨row, hrow, rfl⟩ := List.mem_map.1 h
    obtain ⟨hmem, hpasses⟩ := List.mem_filter.1 hrow
    exact ⟨List.mem_map_of_mem hmem, hpasses⟩
  · rintro ⟨h, hpasses⟩
    obtain ⟨row, hrow, rfl⟩ := List.mem_map.1 h
    exact List.mem_map_of_mem (List.mem_filter.2 ⟨hrow, hpasses⟩)

theorem matchingRows_count : (matchingRows db options relationFilter).length < 2 ^ 63 := by
  have hsubset : ((matchingRows db options relationFilter).map fun row => row.1.id) ⊆ db.threads.map ThreadRow.id := by
    intro id hid
    obtain ⟨row, hrow, rfl⟩ := List.mem_map.1 hid
    exact List.mem_map_of_mem (mem_matchingRows.1 (List.mem_map_of_mem hrow)).1
  have hle := (matchingRows_ids.subperm hsubset).length_le
  rw [List.length_map, List.length_map] at hle
  exact Nat.lt_of_le_of_lt hle db.count

/-! ## Pages -/

variable (orderBy : OrderBy T D options.sortKey options.sortDirection (tiebreakerOf options relationFilter))

/-- The queries of a listing. -/
def answersOf (db : StateDb T D) :
    Answers (keyset options.sortDirection (tiebreakerOf options relationFilter)) (rowKey options relationFilter)
      (matchingRows db options relationFilter) where
  answer anchor := orderBy.sort anchor ((keyset options.sortDirection (tiebreakerOf options relationFilter)).selected
    (rowKey options relationFilter) (matchingRows db options relationFilter) anchor)
  perm anchor := orderBy.perm anchor _
  sorted anchor := orderBy.sorted anchor _

theorem limitRows_of_lt (rows : List α) {limit : Nat} (h : limit < 2 ^ 63) :
    limitRows limit rows = rows.take limit := by
  have hbound : Int.bmod limit (2 ^ 64) = limit := by
    rw [Int.bmod_def]
    omega
  unfold limitRows
  rw [hbound]
  exact if_neg (Int.not_lt.2 (Int.natCast_nonneg limit))

/-- A limit that is negative `as i64`. -/
theorem limitRows_of_ge (rows : List α) {limit : Nat} (h : 2 ^ 63 ≤ limit) (hlt : limit < 2 ^ 64) :
    limitRows limit rows = rows := by
  have hbound : Int.bmod limit (2 ^ 64) < 0 := by
    rw [Int.bmod_def]
    omega
  unfold limitRows
  exact if_pos hbound

/-- There are never more rows than `as i64` leaves of a limit. -/
theorem limitRows_eq {rows : List α} (h : rows.length < 2 ^ 63) (hsize : size < 2 ^ 64) :
    limitRows (min (size + 1) (2 ^ 64 - 1)) rows = rows.take (size + 1) := by
  rcases Nat.lt_or_ge (size + 1) (2 ^ 63) with hsmall | hlarge
  · have hmin : min (size + 1) (2 ^ 64 - 1) = size + 1 := by omega
    rw [hmin, limitRows_of_lt rows hsmall]
  · have hmin : 2 ^ 63 ≤ min (size + 1) (2 ^ 64 - 1) := by omega
    rw [limitRows_of_ge rows hmin (by omega), List.take_of_length_le (by omega)]

theorem answerOf_count (anchor : Option (Anchor T)) : ((answersOf orderBy db).answer anchor).length < 2 ^ 63 := by
  rw [((answersOf orderBy db).perm anchor).length_eq]
  refine Nat.lt_of_le_of_lt ?_ (@matchingRows_count T D _ db options relationFilter)
  cases anchor with
  | none => exact Nat.le_refl _
  | some anchor => exact List.length_filter_le _ _

theorem listThreadsQuery_eq (anchor : Option (Anchor T)) (hsize : size < 2 ^ 64) :
    listThreadsQuery db options anchor relationFilter (min (size + 1) (2 ^ 64 - 1)) orderBy =
      ((answersOf orderBy db).answer anchor).take (size + 1) := by
  rw [← limitRows_eq (answerOf_count orderBy anchor) hsize, listThreadsQuery]
  congr 2
  cases anchor with
  | none =>
    refine List.filter_congr ?_
    intro row _
    exact Bool.and_true _
  | some anchor =>
    show _ = ((db.related relationFilter).filter fun row => options.passes row.1).filter _
    rw [List.filter_filter]
    refine List.filter_congr ?_
    intro row _
    rw [Bool.and_comm]
    exact congrArg (· && options.passes row.1) (afterAnchor_eq options relationFilter anchor row)

/-- A page of the client: its items and the anchor of the next one. -/
def fetchPage (db : StateDb T D) (pageSize : UInt64) (options : ThreadFilterOptions)
    (relationFilter : Option (ThreadRelationFilter T))
    (orderBy : OrderBy T D options.sortKey options.sortDirection (tiebreakerOf options relationFilter))
    (anchor : Option (Anchor T)) :
    Except RowError (List (ThreadMetadata T D) × Option (Anchor T)) :=
  (listThreadsMatching db pageSize options anchor relationFilter orderBy).map fun page => (page.items, page.nextAnchor)

def Decodes (row : Joined T D) (item : ThreadMetadata T D) : Prop := row.1.decode = .ok item

omit [LinearOrder T] in
theorem timestamp_of_decode {row : ThreadRow T D} {item : ThreadMetadata T D} (h : row.decode = .ok item) (sortKey : SortKey) :
    epochMillisToDatetime (sortKey.column row) = some (sortKey.timestamp item) ∧ item.id = row.id := by
  obtain ⟨createdAt, hcreated, h⟩ := Results.bind_eq_ok.1 h
  obtain ⟨updatedAt, hupdated, h⟩ := Results.bind_eq_ok.1 h
  obtain ⟨recencyAt, hrecency, h⟩ := Results.bind_eq_ok.1 h
  have htimestamp : ∀ {millis dt}, decodeTimestamp millis = .ok dt → epochMillisToDatetime millis = some dt := by
    intro millis dt hdt
    rw [decodeTimestamp] at hdt
    split at hdt
    next hread => cases hdt; exact hread
    next => cases hdt
  split at h
  next => cases h
  next =>
    cases h
    cases sortKey
    · exact ⟨htimestamp hcreated, rfl⟩
    · exact ⟨htimestamp hupdated, rfl⟩
    · exact ⟨htimestamp hrecency, rfl⟩

theorem anchorFromItem_eq {item} (h : Decodes row item) :
    anchorFromItem item options.sortKey relationFilter.isSome =
      some ((keyset options.sortDirection (tiebreakerOf options relationFilter)).anchor (rowKey options relationFilter row)) := by
  obtain ⟨hts, hid⟩ := timestamp_of_decode h options.sortKey
  have hread : (epochMillisToDatetime (Int64.ofInt (options.sortKey.column row.1).toInt)).getD ⟨0, by decide, by decide⟩ =
      options.sortKey.timestamp item := by
    rw [Int64.ofInt_toInt, hts]
    rfl
  rw [anchorFromItem, hid]
  refine congrArg some ?_
  congr 1
  exact hread.symm

theorem forall₂_getElem? {β : Type*} {R : α → β → Prop} {xs ys} (h : List.Forall₂ R xs ys)
    {i : Nat} {x : α} (hx : xs[i]? = some x) : ∃ y, ys[i]? = some y ∧ R x y := by
  induction h generalizing i with
  | nil => cases hx
  | cons hxy _ ih =>
    cases i with
    | zero =>
      cases hx
      exact ⟨_, rfl, hxy⟩
    | succ i => exact ih hx

theorem fetchPage_of_mapM (hsize : 0 < pageSize.toNat) {all}
    (hall : (((answersOf orderBy db).answer anchor).take (pageSize.toNat + 1)).mapM (fun row => row.1.decode) = .ok all) :
    ∃ items rows next, fetchPage db pageSize options relationFilter orderBy anchor = .ok (items, next) ∧
      (fetch (answersOf orderBy db) pageSize.toNat anchor : Except RowError _) = .ok (rows, next) ∧
      List.Forall₂ Decodes rows items := by
  have hquery : listThreadsQuery db options anchor relationFilter (min (pageSize.toNat + 1) (2 ^ 64 - 1)) orderBy = _ :=
    listThreadsQuery_eq orderBy anchor pageSize.toNat_lt
  have hdecoded := Results.mapM_eq_ok.1 hall
  have hlength := hdecoded.length_eq
  rw [List.length_take] at hlength
  unfold fetchPage listThreadsMatching
  dsimp only
  rw [hquery, hall]
  rcases Nat.lt_or_ge pageSize.toNat ((answersOf orderBy db).answer anchor).length with hmore | hlast
  · obtain ⟨last, next, hlast, hnext⟩ := exists_ends hsize hmore
    have hcount : all.length = pageSize.toNat + 1 := by omega
    have hpage : List.Forall₂ Decodes (((answersOf orderBy db).answer anchor).take pageSize.toNat) all.dropLast := by
      have htake := List.forall₂_take pageSize.toNat hdecoded
      rw [List.take_take, Nat.min_eq_left (Nat.le_add_right ..)] at htake
      rw [List.dropLast_eq_take, hcount]
      exact htake
    have hpagelast : (((answersOf orderBy db).answer anchor).take pageSize.toNat)[pageSize.toNat - 1]? = some last := by
      rw [List.getElem?_take_of_lt (by omega), hlast]
    obtain ⟨item, hitem, hdecodes⟩ := forall₂_getElem? hpage hpagelast
    have hitemlast : all.dropLast.getLast? = some item := by
      rw [List.getLast?_eq_getElem?, List.length_dropLast, hcount]
      exact hitem
    refine ⟨all.dropLast, _, _, ?_, fetch_more hmore hlast, hpage⟩
    dsimp only [bind, Except.bind]
    rw [if_pos (by omega), hitemlast, Option.bind_some, anchorFromItem_eq hdecodes]
    rfl
  · rw [fetch_last hlast]
    rw [List.take_of_length_le (by omega)] at hdecoded
    refine ⟨all, _, none, ?_, rfl, hdecoded⟩
    dsimp only [bind, Except.bind]
    rw [if_neg (by omega)]
    rfl

/-! ## Listings -/

/-- A thread that the listing is for. -/
def Matches (db : StateDb T D) (options : ThreadFilterOptions) (relationFilter : Option (ThreadRelationFilter T))
    (thread : ThreadRow T D) : Prop :=
  thread ∈ db.threads ∧ IsRelated db.edges thread.id relationFilter ∧ options.passes thread = true

/-- Following `next_anchor` to the end returns every matching thread once and in order. -/
def ListsOnce (db : StateDb T D) (pageSize : UInt64) (options : ThreadFilterOptions)
    (relationFilter : Option (ThreadRelationFilter T))
    (orderBy : OrderBy T D options.sortKey options.sortDirection (tiebreakerOf options relationFilter)) : Prop :=
  ∃ fuel items threads, follow (fetchPage db pageSize options relationFilter orderBy) fuel none = .ok (some items) ∧
    List.Forall₂ (fun (thread : ThreadRow T D) item => thread.decode = .ok item) threads items ∧ threads.Nodup ∧
    (∀ thread, thread ∈ threads ↔ Matches db options relationFilter thread) ∧
    threads.Pairwise fun a b => options.sortDirection.le
      (orderKey options.sortKey (tiebreakerOf options relationFilter) a)
      (orderKey options.sortKey (tiebreakerOf options relationFilter) b)

omit [LinearOrder T] in
/-- The rows of the items are the same, however they are found. -/
theorem map_fst_eq {joined : List (Joined T D)} {threads : List (ThreadRow T D)} {items : List (ThreadMetadata T D)}
    (hjoined : List.Forall₂ Decodes joined items)
    (hthreads : List.Forall₂ (fun (thread : ThreadRow T D) item => thread.decode = .ok item) threads items)
    (hrows : ∀ row ∈ joined, row.1 ∈ db.threads) (hmem : ∀ thread ∈ threads, thread ∈ db.threads) :
    joined.map Prod.fst = threads := by
  induction hjoined generalizing threads with
  | nil =>
    cases hthreads
    rfl
  | cons hrow _ ih =>
    cases hthreads with
    | cons hthread hrest =>
      obtain ⟨hrow₁, hrows⟩ := List.forall_mem_cons.1 hrows
      obtain ⟨hmem₁, hmem⟩ := List.forall_mem_cons.1 hmem
      have hid := (timestamp_of_decode hrow .createdAt).2.symm.trans (timestamp_of_decode hthread .createdAt).2
      rw [List.map_cons, ih hrest hrows hmem, List.inj_on_of_nodup_map db.ids hrow₁ hmem₁ hid]

theorem mem_answer (h : row ∈ (answersOf orderBy db).answer anchor) :
    row ∈ matchingRows db options relationFilter := (answersOf orderBy db).mem_rows h

theorem mem_of_fetch {page}
    (h : (fetch (answersOf orderBy db) size anchor : Except RowError _) = .ok page) :
    ∀ row ∈ page.1, row ∈ matchingRows db options relationFilter := by
  rw [fetch] at h
  split at h
  · cases h
    intro row hrow
    exact mem_answer orderBy hrow
  · cases h
    intro row hrow
    exact mem_answer orderBy (List.mem_of_mem_take hrow)

theorem exists_fetch (hsize : 0 < pageSize.toNat) {next items} (h : fetchPage db pageSize options relationFilter orderBy anchor = .ok (items, next)) :
    ∃ rows, (fetch (answersOf orderBy db) pageSize.toNat anchor : Except RowError _) = .ok (rows, next) ∧
      List.Forall₂ (fun item row => Decodes row item) items rows := by
  have hquery : listThreadsQuery db options anchor relationFilter (min (pageSize.toNat + 1) (2 ^ 64 - 1)) orderBy = _ :=
    listThreadsQuery_eq orderBy anchor pageSize.toNat_lt
  have hmapM : ∃ all, (((answersOf orderBy db).answer anchor).take (pageSize.toNat + 1)).mapM
      (fun row => row.1.decode) = .ok all := by
    cases hlist : listThreadsMatching db pageSize options anchor relationFilter orderBy with
    | error e => rw [fetchPage, hlist] at h; cases h
    | ok page =>
      obtain ⟨all, hall, -⟩ := Results.bind_eq_ok.1 hlist
      rw [hquery] at hall
      exact ⟨all, hall⟩
  obtain ⟨all, hall⟩ := hmapM
  obtain ⟨items', rows, next', hpage, hfetch, hdecode⟩ := fetchPage_of_mapM orderBy hsize hall
  rw [hpage] at h
  cases h
  exact ⟨rows, hfetch, hdecode.flip⟩

theorem exists_fetchPage (hsize : 0 < pageSize.toNat)
    (hall : ∀ thread, Matches db options relationFilter thread → ∃ item, thread.decode = .ok item)
    {next rows}
    (h : (fetch (answersOf orderBy db) pageSize.toNat anchor : Except RowError _) = .ok (rows, next)) :
    ∃ items, fetchPage db pageSize options relationFilter orderBy anchor = .ok (items, next) ∧
      List.Forall₂ Decodes rows items := by
  have hmapM : ∃ all, (((answersOf orderBy db).answer anchor).take (pageSize.toNat + 1)).mapM
      (fun row => row.1.decode) = .ok all := by
    refine Results.exists_mapM fun row hrow => ?_
    have hmem := mem_answer orderBy (List.mem_of_mem_take hrow)
    exact hall row.1 (mem_matchingRows.1 (List.mem_map_of_mem hmem))
  obtain ⟨all, hall⟩ := hmapM
  obtain ⟨items, rows', next', hpage, hfetch, hdecode⟩ := fetchPage_of_mapM orderBy hsize hall
  rw [hfetch] at h
  cases h
  exact ⟨items, hpage, hdecode⟩

omit [LinearOrder T] in
theorem exists_decode {threads : List (ThreadRow T D)} {items : List (ThreadMetadata T D)}
    (h : List.Forall₂ (fun (thread : ThreadRow T D) item => thread.decode = .ok item) threads items) {thread : ThreadRow T D}
    (hthread : thread ∈ threads) : ∃ item, thread.decode = .ok item := by
  obtain ⟨item, -, hitem⟩ := Results.exists_of_mapM (Results.mapM_eq_ok.2 h) hthread
  exact ⟨item, hitem⟩

theorem matchingRows_nodup : (matchingRows db options relationFilter).Nodup := matchingRows_ids.of_map _

theorem listsOnce_iff_lists (hsize : 0 < pageSize.toNat) :
    ListsOnce db pageSize options relationFilter orderBy ↔
      (∀ thread, Matches db options relationFilter thread → ∃ item, thread.decode = .ok item) ∧
      ∃ fuel out, (follow (fetch (answersOf orderBy db) pageSize.toNat) fuel none : Except RowError _) = .ok (some out) ∧
        out.Perm (matchingRows db options relationFilter) ∧ out.Pairwise fun a b =>
          options.sortDirection.le (rowKey options relationFilter a) (rowKey options relationFilter b) := by
  constructor
  · rintro ⟨fuel, items, threads, hfollow, hdecode, hnodup, hmem, hsorted⟩
    obtain ⟨out, hout, hdecoded⟩ := exists_follow (fun anchor _ _ h => exists_fetch orderBy hsize h) hfollow
    have hdecoded := hdecoded.flip
    have hfrom : ∀ row ∈ out, row ∈ matchingRows db options relationFilter :=
      forall_of_follow (fun _ _ h => mem_of_fetch orderBy h) hout
    have hthreads : out.map Prod.fst = threads :=
      map_fst_eq hdecoded hdecode (fun row hrow => (mem_matchingRows.1 (List.mem_map_of_mem (hfrom row hrow))).1)
        fun thread hthread => ((hmem thread).1 hthread).1
    subst hthreads
    rw [List.pairwise_map] at hsorted
    refine ⟨?_, fuel, out, hout, ?_, hsorted⟩
    · intro thread hthread
      exact exists_decode hdecode ((hmem thread).2 hthread)
    · rw [List.perm_ext_iff_of_nodup hnodup.of_map matchingRows_nodup]
      intro row
      refine ⟨hfrom row, ?_⟩
      intro hrow
      obtain ⟨other, hother, hsame⟩ := List.mem_map.1 ((hmem row.1).2 (mem_matchingRows.1 (List.mem_map_of_mem hrow)))
      rwa [List.inj_on_of_nodup_map matchingRows_ids hrow (hfrom other hother) (congrArg ThreadRow.id hsame.symm)]
  · rintro ⟨hall, fuel, out, hfollow, hperm, hsorted⟩
    obtain ⟨items, hitems, hdecode⟩ := exists_follow (fun anchor _ _ h => exists_fetchPage orderBy hsize hall h) hfollow
    refine ⟨fuel, items, out.map Prod.fst, hitems, List.forall₂_map_left_iff.2 hdecode, ?_, ?_, List.pairwise_map.2 hsorted⟩
    · have hids : ((out.map Prod.fst).map ThreadRow.id).Nodup := by
        rw [List.map_map]
        exact (hperm.map fun row => row.1.id).nodup_iff.2 matchingRows_ids
      exact hids.of_map
    · intro thread
      rw [(hperm.map Prod.fst).mem_iff, mem_matchingRows]
      rfl

/-- **Listing threads page by page.** -/
theorem listsOnce_iff {pageSize : UInt64} (hsize : 1 ≤ pageSize.toNat) :
    ListsOnce db pageSize options relationFilter orderBy ↔
      (∀ thread, Matches db options relationFilter thread → ∃ item, thread.decode = .ok item) ∧
      (keyset options.sortDirection (tiebreakerOf options relationFilter)).Separated pageSize.toNat
        (matchingKeys db options relationFilter) := by
  have hsorted : (matchingKeys db options relationFilter).Pairwise options.sortDirection.le := by
    have : Std.Total (@SortDirection.le T _ options.sortDirection) := ⟨(keyset options.sortDirection true).total⟩
    have : IsTrans (OrderKey T) options.sortDirection.le := ⟨fun _ _ _ => (keyset options.sortDirection true).trans⟩
    exact List.pairwise_insertionSort _ _
  refine (listsOnce_iff_lists orderBy hsize).trans (and_congr_right fun _ => ?_)
  exact lists_iff (answersOf orderBy db) hsize matchingRows_nodup (List.perm_insertionSort _ _) hsorted

/-! ## Where pages end -/

end

/-! ## Two threads -/

/-- A database that sorts by insertion. -/
def insertionOrderBy (T D : Type) [LinearOrder T] (sortKey : SortKey) (direction : SortDirection) (tiebreaker : Bool) :
    OrderBy T D sortKey direction tiebreaker where
  sort _ rows := rows.insertionSort fun a b =>
    direction.le (orderKey sortKey tiebreaker a.1) (orderKey sortKey tiebreaker b.1)
  perm _ rows := List.perm_insertionSort _ rows
  sorted _ rows := by
    have : Std.Total fun a b : Joined T D => direction.le (orderKey sortKey tiebreaker a.1) (orderKey sortKey tiebreaker b.1) :=
      ⟨fun a b => (keyset direction tiebreaker).total _ _⟩
    have : IsTrans (Joined T D) fun a b => direction.le (orderKey sortKey tiebreaker a.1) (orderKey sortKey tiebreaker b.1) :=
      ⟨fun _ _ _ => (keyset direction tiebreaker).trans⟩
    exact List.pairwise_insertionSort _ rows

/-- A thread of 2023 with a preview. -/
def demoThread (id : Nat) (createdAtMs : Int64) : ThreadRow Nat Unit where
  id
  createdAtMs
  updatedAtMs := 1700000000000
  recencyAtMs := 1700000000000
  source := "cli".toList
  modelProvider := "openai".toList
  cwd := "/".toList
  title := []
  name := none
  preview := "hi".toList
  archived := false
  isPinned := false
  others := some ()

def demoDb (createdAtMs : Int64) : StateDb Nat Unit where
  threads := [demoThread 1 1700000000000, demoThread 2 createdAtMs]
  edges := []
  ids := by
    show [1, 2].Nodup
    decide
  children := .nil
  count := by
    show 2 < 2 ^ 63
    decide

/-- The newest threads first. -/
def newestFirst : ThreadFilterOptions where
  archivedOnly := false
  allowedSources := []
  modelProviders := none
  cwdFilters := none
  isPinned := none
  sortKey := .createdAt
  sortDirection := .desc
  searchTerm := none

def demoOrderBy : OrderBy Nat Unit newestFirst.sortKey newestFirst.sortDirection
    (tiebreakerOf newestFirst (none : Option (ThreadRelationFilter Nat))) :=
  insertionOrderBy Nat Unit ..

theorem listsOnce_iff_demo :
    ListsOnce (demoDb 1700000000001) 1 newestFirst none demoOrderBy ↔
      (∀ thread, Matches (demoDb 1700000000001) newestFirst none thread → ∃ item, thread.decode = .ok item) ∧
        (keyset .desc false).Separated 1 (matchingKeys (demoDb 1700000000001) newestFirst none) :=
  listsOnce_iff demoOrderBy (Nat.le_refl 1)

/-- Two threads created in the same millisecond: one is on the first page, and its anchor passes the other. -/
theorem not_listsOnce_tie : ¬ ListsOnce (demoDb 1700000000000) 1 newestFirst none demoOrderBy := by
  intro h
  have hsize : 0 < (1 : UInt64).toNat := Nat.one_pos
  obtain ⟨-, hlists⟩ := (listsOnce_iff_lists demoOrderBy hsize).1 h
  have hseparated := (lists_iff (answersOf demoOrderBy (demoDb 1700000000000)) Nat.one_pos matchingRows_nodup (.refl _) (by
    exact .cons (List.forall_mem_singleton.2 (le_refl _)) (List.pairwise_singleton ..))).1 hlists
  obtain ⟨hnot, hafter⟩ := hseparated 0 _ _ rfl rfl
  exact Bool.false_ne_true (hnot.symm.trans hafter)

end Codex.Listing
