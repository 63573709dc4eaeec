/-
Listing threads from the state database: `list_threads_matching` and the query it
builds (`state/src/runtime/threads.rs`), `anchor_from_item` and the decoding of a row
(`state/src/model/thread_metadata.rs`).

SQLite may return rows that compare equal in any order, by the query; so `ORDER BY` is
a parameter. Thread ids are compared as texts. Columns that no filter or order reads
are `D` where they can be decoded.
-/
import Codex.EpochMillis
import Codex.Lib.Closures
import Codex.Text
import Mathlib.Data.List.AList
import Mathlib.Data.List.Infix
import Mathlib.Data.Prod.Lex
import Mathlib.Order.WithBot

namespace Codex.Listing

open EpochMillis

/-! ## Tables -/

structure ThreadRow (T D : Type) where
  id : T
  createdAtMs : Int64
  updatedAtMs : Int64
  recencyAtMs : Int64
  source : Text
  modelProvider : Text
  cwd : Text
  title : Text
  name : Option Text
  preview : Text
  archived : Bool
  isPinned : Bool
  /-- The other columns, if they can be decoded. -/
  others : Option D

structure SpawnEdge (T : Type) where
  parentThreadId : T
  childThreadId : T

/-- `threads` and `thread_spawn_edges`. -/
structure StateDb (T D : Type) where
  threads : List (ThreadRow T D)
  edges : List (SpawnEdge T)
  /-- `threads.id` is a key. -/
  ids : (threads.map ThreadRow.id).Nodup
  /-- `thread_spawn_edges.child_thread_id` is a key. -/
  children : (edges.map SpawnEdge.childThreadId).Nodup
  /-- As many as a `Vec` may have. -/
  count : threads.length < 2 ^ 63

inductive SortKey where
  | createdAt
  | updatedAt
  | recencyAt
  deriving DecidableEq, Repr

inductive SortDirection where
  | asc
  | desc
  deriving DecidableEq, Repr

inductive ThreadRelationFilter (T : Type) where
  | directChildrenOf (parentThreadId : T)
  | descendantsOf (ancestorThreadId : T)

structure Anchor (T : Type) where
  ts : DateTime
  id : Option T

/-- The filters without their anchor, which differs from page to page. -/
structure ThreadFilterOptions where
  archivedOnly : Bool
  allowedSources : List Text
  modelProviders : Option (List Text)
  cwdFilters : Option (List Text)
  isPinned : Option Bool
  sortKey : SortKey
  sortDirection : SortDirection
  searchTerm : Option Text

/-! ## The query -/

/-- `instr(text, term) > 0` -/
def instr (text term : Text) : Bool := term <:+: text

/-- The columns of `ORDER BY` and of the anchor. -/
def SortKey.column {T D : Type} : SortKey → ThreadRow T D → Int64
  | createdAt => ThreadRow.createdAtMs
  | updatedAt => ThreadRow.updatedAtMs
  | recencyAt => ThreadRow.recencyAtMs

namespace ThreadFilterOptions
variable {T D : Type} (options : ThreadFilterOptions)

/-- The conditions of `push_thread_filters` before that of the anchor. -/
def passes (row : ThreadRow T D) : Bool :=
  row.archived = options.archivedOnly &&
    row.preview ≠ [] &&
    options.isPinned.all (row.isPinned = ·) &&
    (options.allowedSources = [] || row.source ∈ options.allowedSources) &&
    options.modelProviders.all (fun providers => providers = [] || row.modelProvider ∈ providers) &&
    options.cwdFilters.all (row.cwd ∈ ·) &&
    options.searchTerm.all fun term =>
      instr (row.name.getD []) term || instr row.title term || instr row.preview term

end ThreadFilterOptions

section
variable {T D : Type} [LinearOrder T]

/-- A row of the query, with `parent_thread_id`. -/
abbrev Joined (T D : Type) := ThreadRow T D × Option T

/-- The common table expression. -/
def subtree (edges : List (SpawnEdge T)) (ancestorThreadId : T) : List (SpawnEdge T) :=
  Closures.collect (fun edge => edge.parentThreadId = ancestorThreadId)
    (fun edge next => next.parentThreadId = edge.childThreadId) edges

namespace StateDb
variable (db : StateDb T D)

/-- `CROSS JOIN threads ON threads.id = child_thread_id` -/
def join (edge : SpawnEdge T) : Option (Joined T D) :=
  (db.threads.find? fun row => row.id = edge.childThreadId).map fun row => (row, some edge.parentThreadId)

/-- `FROM` and the conditions on the relation. -/
def related : Option (ThreadRelationFilter T) → List (Joined T D)
  | none => db.threads.map fun row => (row, none)
  | some (.directChildrenOf parentThreadId) =>
    (db.edges.filter fun edge => edge.parentThreadId = parentThreadId).filterMap db.join
  | some (.descendantsOf ancestorThreadId) =>
    ((subtree db.edges ancestorThreadId).filter fun edge => edge.childThreadId ≠ ancestorThreadId).filterMap db.join

end StateDb

/-- `a < b` or `b < a`. -/
def SortDirection.lt {α : Type*} [LT α] [DecidableLT α] : SortDirection → α → α → Bool
  | asc, a, b => a < b
  | desc, a, b => b < a

def includeThreadIdTiebreaker (relationFilter : Option (ThreadRelationFilter T)) (sortKey : SortKey) : Bool :=
  relationFilter.isSome || sortKey = .recencyAt

/-- The condition of the anchor. -/
def afterAnchor (options : ThreadFilterOptions) (tiebreaker : Bool) (anchor : Anchor T) (row : ThreadRow T D) : Bool :=
  let anchorTs := (datetimeToEpochMillis anchor.ts).toInt
  let column := (options.sortKey.column row).toInt
  options.sortDirection.lt anchorTs column ||
    (tiebreaker && anchor.id.any fun anchorId => column = anchorTs && options.sortDirection.lt anchorId row.id)

/-- What `ORDER BY` compares. -/
abbrev OrderKey (T : Type) := Int ×ₗ WithBot T

def orderKey (sortKey : SortKey) (tiebreaker : Bool) (row : ThreadRow T D) : OrderKey T :=
  toLex ((sortKey.column row).toInt, if tiebreaker then (row.id : WithBot T) else ⊥)

/-- `ASC` or `DESC`. -/
def SortDirection.le (direction : SortDirection) (a b : OrderKey T) : Prop :=
  match direction with
  | asc => a ≤ b
  | desc => b ≤ a

instance (direction : SortDirection) : DecidableRel (SortDirection.le (T := T) direction) := fun a b =>
  match direction with
  | .asc => inferInstanceAs (Decidable (a ≤ b))
  | .desc => inferInstanceAs (Decidable (b ≤ a))

/-- The order in which SQLite returns the rows of each query. -/
structure OrderBy (T D : Type) [LinearOrder T] (sortKey : SortKey) (direction : SortDirection) (tiebreaker : Bool) where
  sort : Option (Anchor T) → List (Joined T D) → List (Joined T D)
  perm : ∀ anchor rows, (sort anchor rows).Perm rows
  sorted : ∀ anchor rows, (sort anchor rows).Pairwise fun a b =>
    direction.le (orderKey sortKey tiebreaker a.1) (orderKey sortKey tiebreaker b.1)

/-- `LIMIT`, bound to `limit as i64`; there is none if that is negative. -/
def limitRows {α : Type*} (limit : Nat) (rows : List α) : List α :=
  let bound := Int.bmod limit (2 ^ 64)
  if bound < 0 then rows else rows.take bound.toNat

/-! ## Pages -/

inductive RowError where
  | invalidTimestamp (millis : Int64)
  | invalidColumn
  deriving DecidableEq

structure ThreadMetadata (T D : Type) where
  id : T
  createdAt : DateTime
  updatedAt : DateTime
  recencyAt : DateTime
  source : Text
  modelProvider : Text
  cwd : Text
  title : Text
  name : Option Text
  preview : Option Text
  isPinned : Bool
  others : D

def decodeTimestamp (millis : Int64) : Except RowError DateTime :=
  match epochMillisToDatetime millis with
  | some dt => .ok dt
  | none => .error (.invalidTimestamp millis)

/-- `ThreadRow::try_from_row` and `ThreadMetadata::try_from` -/
def ThreadRow.decode (row : ThreadRow T D) : Except RowError (ThreadMetadata T D) := do
  let createdAt ← decodeTimestamp row.createdAtMs
  let updatedAt ← decodeTimestamp row.updatedAtMs
  let recencyAt ← decodeTimestamp row.recencyAtMs
  match row.others with
  | none => .error .invalidColumn
  | some others => return {
      id := row.id, createdAt, updatedAt, recencyAt, source := row.source, modelProvider := row.modelProvider,
      cwd := row.cwd, title := row.title, name := row.name,
      preview := if row.preview = [] then none else some row.preview, isPinned := row.isPinned, others }

def SortKey.timestamp : SortKey → ThreadMetadata T D → DateTime
  | createdAt => ThreadMetadata.createdAt
  | updatedAt => ThreadMetadata.updatedAt
  | recencyAt => ThreadMetadata.recencyAt

def anchorFromItem (item : ThreadMetadata T D) (sortKey : SortKey) (includeThreadIdTiebreaker : Bool) : Option (Anchor T) :=
  some { ts := sortKey.timestamp item, id := if includeThreadIdTiebreaker || sortKey = .recencyAt then some item.id else none }

structure ThreadsPage (T D : Type) [LinearOrder T] where
  items : List (ThreadMetadata T D)
  parentThreadIds : AList fun _ : T => T
  nextAnchor : Option (Anchor T)
  numScannedRows : Nat

/-- The query of `push_list_threads_query`, as answered. -/
def listThreadsQuery (db : StateDb T D) (options : ThreadFilterOptions) (anchor : Option (Anchor T))
    (relationFilter : Option (ThreadRelationFilter T)) (limit : Nat)
    (orderBy : OrderBy T D options.sortKey options.sortDirection
      (includeThreadIdTiebreaker relationFilter options.sortKey)) : List (Joined T D) :=
  let tiebreaker := includeThreadIdTiebreaker relationFilter options.sortKey
  limitRows limit (orderBy.sort anchor ((db.related relationFilter).filter fun row =>
    options.passes row.1 && anchor.all fun anchor => afterAnchor options tiebreaker anchor row.1))

/-- The parents of the rows; without a relation no row has one. -/
def parentThreadIds (rows : List (Joined T D)) : AList fun _ : T => T :=
  rows.foldl (fun parents row => match row.2 with
    | some parentThreadId => parents.insert row.1.id parentThreadId
    | none => parents) ∅

def listThreadsMatching (db : StateDb T D) (pageSize : UInt64) (options : ThreadFilterOptions) (anchor : Option (Anchor T))
    (relationFilter : Option (ThreadRelationFilter T))
    (orderBy : OrderBy T D options.sortKey options.sortDirection
      (includeThreadIdTiebreaker relationFilter options.sortKey)) : Except RowError (ThreadsPage T D) := do
  let limit := min (pageSize.toNat + 1) (2 ^ 64 - 1)
  let rows := listThreadsQuery db options anchor relationFilter limit orderBy
  let items ← rows.mapM fun row => row.1.decode
  let parents := parentThreadIds rows
  if pageSize.toNat < items.length then
    let overflowItem := items.getLast?
    let page := items.dropLast
    return {
      items := page
      parentThreadIds := (overflowItem.map fun item => parents.erase item.id).getD parents
      nextAnchor := page.getLast?.bind fun item => anchorFromItem item options.sortKey relationFilter.isSome
      numScannedRows := items.length }
  else return { items, parentThreadIds := parents, nextAnchor := none, numScannedRows := items.length }

end

end Codex.Listing
