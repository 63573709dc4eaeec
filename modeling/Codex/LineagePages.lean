/-
Paging is exact. The rows of a thread have distinct ordinals, as each line of its
rollout gives at most one turn or item its ordinal, and lines are numbered one
after another. So the rows a lineage shows have one order: segment by segment,
by ordinal. A page is the first rows of what its cursor has left of that list,
in either direction, and a cursor is the position of a row in it; the library's
rule for following cursors does the rest.
-/
import Codex.Materialization
import Codex.SegmentPaging

namespace Codex.Paging

open Projection SeekPaging

/-! ## Ordinals of a projected database -/

/-- A column of ordinals that are distinct and have all been given out. -/
def Given (next : Nat) (ordinals : List Nat) : Prop := ordinals.Nodup ∧ ∀ ordinal ∈ ordinals, ordinal < next

/-- A column keeps its ordinals, or gains one. -/
def Gains (ordinal : Nat) (old new : List Nat) : Prop := new = old ∨ new = old ++ [ordinal]

theorem Given.gains {next : Nat} {old new} (h : Given next old) (hnew : Gains next old new) : Given (next + 1) new := by
  have hlt : ∀ ordinal ∈ old, ordinal < next + 1 := fun ordinal hmem => Nat.lt_succ_of_lt (h.2 ordinal hmem)
  rcases hnew with rfl | rfl
  · exact ⟨h.1, hlt⟩
  · refine ⟨List.nodup_append.2 ⟨h.1, List.nodup_singleton _, fun a ha b hb => ?_⟩, fun ordinal hmem => ?_⟩
    · rw [List.mem_singleton.1 hb]
      exact (h.2 a ha).ne
    · rcases List.mem_append.1 hmem with hold | hself
      · exact hlt ordinal hold
      · rw [List.mem_singleton.1 hself]
        exact Nat.lt_succ_self next

def turnOrdinals (db : HistoryDb) : List Nat := db.turns.map (·.rolloutOrdinal)

def itemOrdinals (db : HistoryDb) : List Nat := db.items.map (·.rolloutOrdinal)

variable (line : ProjectedRolloutLine) {parser : LineParser} {start : Option Nat} {db' : HistoryDb}
  {rollouts : Rollouts} {cutoff : Option HistoryPosition} {segment : RolloutLineageSegment} {α : Type}

section
variable {db : HistoryDb}

theorem turnOrdinals_updateTurn {turnId} {update : TurnRow → TurnRow}
    (h : ∀ row, (update row).rolloutOrdinal = row.rolloutOrdinal) :
    turnOrdinals (db.updateTurn turnId update) = turnOrdinals db := by
  simp only [turnOrdinals, HistoryDb.updateTurn, List.map_map]
  refine List.map_congr_left fun row _ => ?_
  simp only [Function.comp_apply]
  split
  · exact h row
  · rfl

theorem turnOrdinals_upsertTurn (row : TurnRow) :
    Gains row.rolloutOrdinal (turnOrdinals db) (turnOrdinals (db.upsertTurn row)) := by
  rw [HistoryDb.upsertTurn]
  split
  · refine .inl (turnOrdinals_updateTurn fun old => ?_)
    split
    · rfl
    · rfl
  · exact .inr (by simp [turnOrdinals])

theorem itemOrdinals_upsertTurn (row : TurnRow) : itemOrdinals (db.upsertTurn row) = itemOrdinals db := by
  rw [HistoryDb.upsertTurn]
  split
  · rfl
  · rfl

theorem turnOrdinals_applyTurnChange (turn : ThreadHistoryTurnChange) :
    Gains line.ordinal (turnOrdinals db) (turnOrdinals (HistoryDb.applyTurnChange line db turn)) := by
  rw [HistoryDb.applyTurnChange, HistoryDb.fillSummaryIds, turnOrdinals_updateTurn]
  · exact turnOrdinals_upsertTurn _
  · intro row
    split
    · rfl
    · rfl

theorem itemOrdinals_applyTurnChange (turn : ThreadHistoryTurnChange) :
    itemOrdinals (HistoryDb.applyTurnChange line db turn) = itemOrdinals db := itemOrdinals_upsertTurn _

theorem itemOrdinals_upsertItem (row : ItemRow) :
    Gains row.rolloutOrdinal (itemOrdinals db) (itemOrdinals (db.upsertItem row)) := by
  rw [HistoryDb.upsertItem]
  split
  · refine .inl ?_
    simp only [itemOrdinals, List.map_map]
    refine List.map_congr_left fun old _ => ?_
    simp only [Function.comp_apply]
    split
    · rfl
    · rfl
  · exact .inr (by simp [itemOrdinals])

theorem turnOrdinals_upsertItem (row : ItemRow) : turnOrdinals (db.upsertItem row) = turnOrdinals db := by
  rw [HistoryDb.upsertItem]
  split
  · rfl
  · rfl

/-- After the upsert, an item change sets summary ids at most. -/
theorem applyItemChange_ordinals (change : ThreadHistoryItemChange) :
    turnOrdinals (HistoryDb.applyItemChange line db change) = turnOrdinals db ∧
      Gains line.ordinal (itemOrdinals db) (itemOrdinals (HistoryDb.applyItemChange line db change)) := by
  have keeps {update : TurnRow → TurnRow} (h : ∀ row, (update row).rolloutOrdinal = row.rolloutOrdinal) (row : ItemRow) :
      turnOrdinals ((db.upsertItem row).updateTurn change.turnId update) = turnOrdinals db :=
    (turnOrdinals_updateTurn h).trans (turnOrdinals_upsertItem row)
  rw [HistoryDb.applyItemChange]
  split
  · refine ⟨keeps (fun row => ?_) _, itemOrdinals_upsertItem _⟩
    split
    · rfl
    · rfl
  · split
    · refine ⟨keeps (fun row => ?_) _, itemOrdinals_upsertItem _⟩
      split
      · rfl
      · rfl
    · exact ⟨turnOrdinals_upsertItem _, itemOrdinals_upsertItem _⟩

theorem projectLine_changes {record line} (h : projectLine parser start record = some line) :
    line.changes = {} ∨ (∃ turn, line.changes = { changedTurns := [turn] }) ∨ ∃ item, line.changes = { changedItems := [item] } := by
  simp only [projectLine, Option.bind_eq_bind, Option.bind_eq_some_iff, Option.pure_def, Option.some.injEq] at h
  obtain ⟨ordinal, -, createdAtMs, -, rfl⟩ := h
  split
  · exact .inl rfl
  · rw [projectRolloutLine]
    split
    · exact .inr (.inl ⟨_, rfl⟩)
    · exact .inr (.inl ⟨_, rfl⟩)
    · exact .inr (.inl ⟨_, rfl⟩)
    · exact .inr (.inr ⟨_, rfl⟩)
    · exact .inl rfl

/-- Rows whose ordinals have been given out, below SQLite's bound. -/
structure Ordered (db : HistoryDb) (next : Nat) : Prop where
  turns : Given next (turnOrdinals db)
  items : Given next (itemOrdinals db)
  bound : next < 2 ^ 63

theorem Ordered.applyLine {record line} {next next' : Nat} (h : Ordered db next)
    (hproject : projectLine parser start record = some line) (happly : Projection.applyLine (db, next) line = some (db', next')) :
    Ordered db' next' := by
  obtain ⟨rfl, -, -, hbound, rfl, rfl⟩ := applyLine_eq_some.1 happly
  rcases projectLine_changes hproject with hnone | ⟨turn, hturn⟩ | ⟨item, hitem⟩
  · refine ⟨h.turns.gains (.inl ?_), h.items.gains (.inl ?_), hbound⟩
    · simp [HistoryDb.applyChangeSet, hnone]
    · simp [HistoryDb.applyChangeSet, hnone]
  · refine ⟨h.turns.gains ?_, h.items.gains (.inl ?_), hbound⟩
    · simpa [HistoryDb.applyChangeSet, hturn] using turnOrdinals_applyTurnChange line turn
    · simpa [HistoryDb.applyChangeSet, hturn] using itemOrdinals_applyTurnChange line turn
  · obtain ⟨hturns, hitems⟩ : turnOrdinals (HistoryDb.applyItemChange line db item) = turnOrdinals db ∧ _ :=
      applyItemChange_ordinals line item
    refine ⟨h.turns.gains (.inl ?_), h.items.gains ?_, hbound⟩
    · simpa [HistoryDb.applyChangeSet, hitem] using hturns
    · simpa [HistoryDb.applyChangeSet, hitem] using hitems

theorem Ordered.projectRows {lines} {next next' : Nat} (h : Ordered db next)
    (hrows : Projection.projectRows parser start lines (db, next) = some (db', next')) : Ordered db' next' := by
  induction lines generalizing db next with
  | nil =>
    obtain ⟨rfl, rfl⟩ := Prod.mk.inj (Option.some.inj hrows)
    exact h
  | cons record lines ih =>
    obtain ⟨projections, hprojections, hfold⟩ := Option.bind_eq_some_iff.1 hrows
    simp only [List.mapM_cons, Option.bind_eq_bind, Option.bind_eq_some_iff, Option.pure_def, Option.some.injEq] at hprojections
    obtain ⟨line, hline, rest, hrest, rfl⟩ := hprojections
    rw [List.foldlM_cons, Option.bind_eq_bind, Option.bind_eq_some_iff] at hfold
    obtain ⟨⟨db₁, next₁⟩, happly, hfold⟩ := hfold
    exact ih (h.applyLine hline happly) (Option.bind_eq_some_iff.2 ⟨rest, hrest, hfold⟩)

theorem Ordered.finish {lines} {startOffset nextOffset : Nat} (h : Ordered db db.nextRolloutOrdinal)
    (hfinish : Projection.finish parser db startOffset nextOffset lines start = some db') :
    Ordered db' db'.nextRolloutOrdinal := by
  obtain ⟨-, -, -, rows, next, hrows, rfl⟩ := finish_eq_some.1 hfinish
  have hrows := h.projectRows hrows
  exact ⟨hrows.turns, hrows.items, hrows.bound⟩

end

/-- **Every materialised database is ordered**, however its calls interleave. -/
theorem ordered_run (parser : LineParser) {s : History} (h : Ordered s.db s.db.nextRolloutOrdinal) (actions : List Action) :
    Ordered (s.run parser actions).db (s.run parser actions).db.nextRolloutOrdinal := by
  induction actions generalizing s with
  | nil => exact h
  | cons a actions ih =>
    refine ih ?_
    cases a with
    | append bytes => exact h
    | call i =>
      obtain hstep | ⟨-, pc, hstep⟩ | ⟨-, seen, startOffset, nextOffset, lines, start, db, applied, hfinish, hstep⟩ :=
        s.callStep_cases parser i
      · rwa [History.step, hstep]
      · rwa [History.step, hstep]
      · rw [History.step, hstep]
        exact h.finish hfinish
    | fail i =>
      obtain hstep | ⟨-, hstep⟩ := s.failStep_cases i
      · rwa [History.step, hstep]
      · rwa [History.step, hstep]

/-- A database whose rows of each thread come from calls over its rollout. -/
def Materialised (db : ThreadId → HistoryDb) : Prop :=
  ∀ threadId, ∃ parser actions, db threadId = (History.run parser {} actions).db

theorem Materialised.ordered {db : ThreadId → HistoryDb} (h : Materialised db) (threadId : ThreadId) :
    Ordered (db threadId) (db threadId).nextRolloutOrdinal := by
  obtain ⟨parser, actions, hdb⟩ := h threadId
  have hempty : Ordered {} 0 := ⟨⟨List.nodup_nil, by simp [turnOrdinals]⟩, ⟨List.nodup_nil, by simp [itemOrdinals]⟩, by simp⟩
  rw [hdb]
  exact ordered_run parser (s := {}) hempty actions

/-! ## Resolved lineages -/

def lineageIds (lineage : RolloutLineage) : List ThreadId := lineage.map (·.threadId)

theorem readSegment_ok {requestedThreadId threadId base}
    (h : readSegment rollouts requestedThreadId threadId cutoff = .ok (segment, base)) :
    segment.threadId = threadId ∧ threadId ∈ rollouts.map (·.1) := by
  rw [readSegment] at h
  split at h
  · cases h
  · next rollout hlookup =>
    have hmem : threadId ∈ rollouts.map (·.1) := by
      obtain ⟨before, after, rfl, -⟩ := List.lookup_eq_some_iff.1 hlookup
      simp
    split at h
    · cases h
    · split at h
      · cases h
      · split at h
        · cases h
        · cases cutoff with
          | none =>
            obtain ⟨rfl, -⟩ := Prod.mk.inj (Except.ok.inj h)
            exact ⟨rfl, hmem⟩
          | some cutoff =>
            cases hbounds : validateCutoffBounds requestedThreadId rollout cutoff with
            | error err =>
              simp only [hbounds] at h
              cases h
            | ok _ =>
              simp only [hbounds] at h
              obtain ⟨rfl, -⟩ := Prod.mk.inj (Except.ok.inj h)
              exact ⟨rfl, hmem⟩

/-- The segments collected so far are rollouts of the store, each seen once. -/
structure Collected (rollouts : Rollouts) (segments : RolloutLineage) : Prop where
  nodup : (lineageIds segments).Nodup
  known : ∀ threadId ∈ lineageIds segments, threadId ∈ rollouts.map (·.1)

theorem Collected.cons {segments : RolloutLineage} (h : Collected rollouts segments)
    {requestedThreadId threadId : ThreadId} {base : Option HistoryPosition}
    (hnew : segments.any (·.threadId = threadId) = false)
    (hread : readSegment rollouts requestedThreadId threadId cutoff = .ok (segment, base)) :
    Collected rollouts (segment :: segments) := by
  obtain ⟨rfl, hknown⟩ := readSegment_ok hread
  refine ⟨List.nodup_cons.2 ⟨fun hmem => ?_, h.nodup⟩, ?_⟩
  · obtain ⟨other, hother, heq⟩ := List.mem_map.1 hmem
    have hother' : ¬ other.threadId = segment.threadId := by simpa using List.any_eq_false.1 hnew other hother
    exact hother' heq
  · intro threadId hmem
    rcases List.mem_cons.1 hmem with rfl | hmem
    · exact hknown
    · exact h.known threadId hmem

theorem resolveLoop_collected {requestedThreadId} {fuel : Nat} {threadId segments lineage} (h : Collected rollouts segments)
    (hresolve : resolveLoop rollouts requestedThreadId fuel threadId cutoff segments = .ok lineage) :
    Collected rollouts lineage := by
  induction fuel generalizing threadId cutoff segments with
  | zero => cases hresolve
  | succ fuel ih =>
    rw [resolveLoop] at hresolve
    cases hseen : segments.any (·.threadId = threadId) with
    | true =>
      rw [hseen] at hresolve
      cases hresolve
    | false =>
      simp only [hseen, Bool.false_eq_true, if_false] at hresolve
      split at hresolve
      · cases hresolve
      · next segment hread =>
        obtain rfl := Except.ok.inj hresolve
        exact h.cons hseen hread
      · next segment base hread => exact ih (h.cons hseen hread) hresolve

theorem resolveRolloutLineage_collected {requestedThreadId lineage}
    (h : resolveRolloutLineage rollouts requestedThreadId = .ok lineage) : Collected rollouts lineage := by
  have hempty : Collected rollouts [] := ⟨List.nodup_nil, by simp [lineageIds]⟩
  exact resolveLoop_collected hempty h

/-- A lineage that the store resolves, of a thread or of a thread up to a cutoff. -/
def Resolved (rollouts : Rollouts) (lineage : RolloutLineage) : Prop :=
  (∃ threadId, resolveRolloutLineage rollouts threadId = .ok lineage) ∨
    ∃ cutoff, resolveRolloutLineageAt rollouts cutoff = .ok lineage

/-- **No rollout is in a lineage twice.** -/
theorem Resolved.nodup {lineage} (h : Resolved rollouts lineage) : (lineageIds lineage).Nodup := by
  rcases h with ⟨threadId, h⟩ | ⟨cutoff, h⟩
  · exact (resolveRolloutLineage_collected h).nodup
  · rw [resolveRolloutLineageAt] at h
    cases hsegments : resolveRolloutLineage rollouts cutoff.threadId with
    | error err =>
      rw [hsegments] at h
      cases h
    | ok segments =>
      have hnodup := (resolveRolloutLineage_collected hsegments).nodup
      simp only [hsegments, bind, Except.bind] at h
      split at h
      · cases h
      · next segment hlast =>
        split at h
        · cases h
        · split at h
          · cases h
          · obtain rfl := Except.ok.inj h
            obtain ⟨rest, rfl⟩ := List.getLast?_eq_some_iff.1 hlast
            simpa [lineageIds] using hnodup

/-! ## The rows of a lineage -/

namespace SortDirection

def opposite : SortDirection → SortDirection
  | .asc => .desc
  | .desc => .asc

/-- A list that is given in ascending order, in a direction. -/
def order {α : Type} (direction : SortDirection) (l : List α) : List α :=
  match direction with
  | .asc => l
  | .desc => l.reverse

theorem order_opposite (direction : SortDirection) (l : List α) :
    direction.opposite.order l = (direction.order l).reverse := by
  cases direction with
  | asc => rfl
  | desc => exact (List.reverse_reverse l).symm

/-- The order of ordinals in a direction. -/
def Before (direction : SortDirection) (a b : Nat) : Prop :=
  match direction with
  | .asc => a < b
  | .desc => b < a

instance (direction : SortDirection) (a b : Nat) : Decidable (direction.Before a b) :=
  match direction with
  | .asc => inferInstanceAs (Decidable (a < b))
  | .desc => inferInstanceAs (Decidable (b < a))

instance {τ : Type} (direction : SortDirection) (ordinal : τ → Nat) :
    Std.Asymm fun a b : τ => direction.Before (ordinal a) (ordinal b) where
  asymm _ _ h := match direction with
    | .asc => Nat.lt_asymm h
    | .desc => Nat.lt_asymm h

end SortDirection

/-- The four comparators of a cursor are two, in either direction. -/
theorem cursorClause_eq (direction : SortDirection) (cursor : HistoryCursor) (ordinal : Nat) :
    cursorClause direction (some cursor) ordinal =
      if cursor.includeAnchor then decide (¬ direction.Before ordinal cursor.rolloutOrdinal)
      else decide (direction.Before cursor.rolloutOrdinal ordinal) := by
  cases hanchor : cursor.includeAnchor with
  | true => cases direction with
    | asc => simp [cursorClause, hanchor, SortDirection.Before]
    | desc => simp [cursorClause, hanchor, SortDirection.Before]
  | false => cases direction with
    | asc =>
      simp only [cursorClause, hanchor]
      exact decide_eq_decide.2 Iff.rfl
    | desc =>
      simp only [cursorClause, hanchor]
      exact decide_eq_decide.2 Iff.rfl

section
variable {ρ τ : Type}

/-- What the page functions rely on in a table over a database. -/
structure Table.Keyed (table : Table ρ τ) (db : ThreadId → HistoryDb) : Prop where
  nodup : ∀ threadId, ((table.rows (db threadId)).map table.ordinal).Nodup
  bound : ∀ threadId, ∀ row ∈ table.rows (db threadId), table.ordinal row < 2 ^ 63
  position : ∀ threadId row, table.position (table.stored threadId row) = ⟨threadId, table.ordinal row⟩

variable (table : Table ρ τ) (db : ThreadId → HistoryDb)

/-- The rows of a segment's range, in the order of their ordinals. -/
def segmentRows (segment : RolloutLineageSegment) : List τ := selectRows table db .asc segment none

/-- **The history a lineage shows**: its segments in order, each by ordinal. -/
def lineageRows (lineage : RolloutLineage) : List τ := lineage.flatMap (segmentRows table db)

def Table.ordinalOf (row : τ) : Nat := (table.position row).rolloutOrdinal

variable {table db}

theorem Table.Keyed.ordinalOf_stored (h : table.Keyed db) (threadId : ThreadId) (row : ρ) :
    table.ordinalOf (table.stored threadId row) = table.ordinal row := by
  rw [Table.ordinalOf, h.position]

theorem Table.Keyed.nodup_filter (h : table.Keyed db) (threadId : ThreadId) (p : ρ → Bool) :
    (((table.rows (db threadId)).filter p).map table.ordinal).Nodup :=
  (h.nodup threadId).sublist (List.filter_sublist.map _)

variable (direction : SortDirection)

theorem selectRows_none (h : table.Keyed db) (direction : SortDirection) (segment : RolloutLineageSegment) :
    selectRows table db direction segment none = direction.order (segmentRows table db segment) := by
  cases direction with
  | asc => rfl
  | desc =>
    simp only [segmentRows, selectRows, orderRows, SortDirection.order]
    rw [orderBy_toDual (h.nodup_filter _ _), List.map_reverse]
    rfl

theorem flatMap_order (h : table.Keyed db) (direction : SortDirection) (lineage : RolloutLineage) :
    (direction.order lineage).flatMap (fun segment => selectRows table db direction segment none) =
      direction.order (lineageRows table db lineage) := by
  cases direction with
  | asc => rfl
  | desc =>
    simp only [selectRows_none h, SortDirection.order, lineageRows]
    rw [List.reverse_flatMap]
    rfl

theorem orderRows_perm (rows : List ρ) : (orderRows table direction rows).Perm rows := by
  cases direction with
  | asc => exact orderBy_perm rows
  | desc => exact orderBy_perm rows

theorem mem_orderRows {direction rows} {row : ρ} :
    row ∈ orderRows table direction rows ↔ row ∈ rows := (orderRows_perm direction rows).mem_iff

theorem orderRows_filter {rows} (h : (rows.map table.ordinal).Nodup) (p : ρ → Bool) :
    orderRows table direction (rows.filter p) = (orderRows table direction rows).filter p := by
  cases direction with
  | asc => exact orderBy_filter h p
  | desc =>
    refine orderBy_filter ?_ p
    simpa only [List.map_map, Function.comp_def] using h.map OrderDual.toDual.injective

theorem mem_segmentRows (segment : RolloutLineageSegment) (row : τ) :
    row ∈ segmentRows table db segment ↔
      ∃ old ∈ table.rows (db segment.threadId), inSegment segment (table.ordinal old) ∧ row = table.stored segment.threadId old := by
  simp only [segmentRows, selectRows, List.mem_map, mem_orderRows, List.mem_filter, cursorClause, Bool.and_true]
  constructor
  · rintro ⟨old, ⟨hold, hin⟩, rfl⟩
    exact ⟨old, hold, hin, rfl⟩
  · rintro ⟨old, hold, hin, rfl⟩
    exact ⟨old, ⟨hold, hin⟩, rfl⟩

theorem position_of_mem_segmentRows (h : table.Keyed db) {row : τ}
    (hrow : row ∈ segmentRows table db segment) :
    (table.position row).physicalThreadId = segment.threadId ∧ inSegment segment (table.ordinalOf row) ∧
      table.ordinalOf row < 2 ^ 63 := by
  obtain ⟨old, hold, hin, rfl⟩ := (mem_segmentRows segment row).1 hrow
  rw [h.ordinalOf_stored, h.position]
  exact ⟨rfl, hin, h.bound _ old hold⟩

theorem pairwise_segmentRows (h : table.Keyed db) (segment : RolloutLineageSegment) :
    (segmentRows table db segment).Pairwise fun a b => table.ordinalOf a < table.ordinalOf b := by
  rw [segmentRows, selectRows, List.pairwise_map]
  simp only [h.ordinalOf_stored]
  exact pairwise_orderBy (h.nodup_filter _ _)

theorem pairwise_selectRows (h : table.Keyed db) (direction : SortDirection) (segment : RolloutLineageSegment) :
    (selectRows table db direction segment none).Pairwise fun a b =>
      direction.Before (table.ordinalOf a) (table.ordinalOf b) := by
  rw [selectRows_none h]
  cases direction with
  | asc => exact pairwise_segmentRows h segment
  | desc => exact List.pairwise_reverse.2 (pairwise_segmentRows h segment)

theorem selectRows_cursor (h : table.Keyed db) (direction : SortDirection) (segment : RolloutLineageSegment)
    (cursor : Option HistoryCursor) :
    selectRows table db direction segment cursor =
      (selectRows table db direction segment none).filter fun row => cursorClause direction cursor (table.ordinalOf row) := by
  have hsplit : (table.rows (db segment.threadId)).filter (fun row =>
      inSegment segment (table.ordinal row) && cursorClause direction cursor (table.ordinal row)) =
      ((table.rows (db segment.threadId)).filter fun row =>
        inSegment segment (table.ordinal row) && cursorClause direction none (table.ordinal row)).filter fun row =>
          cursorClause direction cursor (table.ordinal row) := by
    rw [List.filter_filter]
    refine List.filter_congr fun row _ => ?_
    simp [cursorClause, Bool.and_comm]
  rw [selectRows, hsplit, orderRows_filter direction (h.nodup_filter _ _), selectRows, List.filter_map]
  refine congrArg (List.map _) (List.filter_congr fun row _ => ?_)
  rw [Function.comp_apply, h.ordinalOf_stored]

/-- What a cursor at a row leaves of its segment: the row if it is included, and the rows after it. -/
def fromAnchor (includeAnchor : Bool) (row : τ) (after : List τ) : List τ := if includeAnchor then row :: after else after

theorem selectRows_at (h : table.Keyed db) {direction before after}
    {row : τ} (hrows : selectRows table db direction segment none = before ++ row :: after) {cursor}
    (hcursor : cursor.rolloutOrdinal = table.ordinalOf row) :
    selectRows table db direction segment (some cursor) = fromAnchor cursor.includeAnchor row after := by
  have hpairwise := pairwise_selectRows h direction segment
  rw [hrows] at hpairwise
  rw [selectRows_cursor h, hrows]
  simp only [cursorClause_eq, hcursor]
  cases cursor.includeAnchor with
  | true => exact filter_from hpairwise
  | false => exact filter_after hpairwise

end

theorem findIdx_lineage {earlier later}
    (hnodup : (lineageIds (earlier ++ segment :: later)).Nodup) {threadId} (hid : threadId = segment.threadId) :
    (earlier ++ segment :: later).findIdx? (·.threadId = threadId) = some earlier.length := by
  have hother : ∀ other ∈ earlier, other.threadId ≠ segment.threadId := by
    intro other hmem heq
    rw [lineageIds, List.map_append, List.nodup_append] at hnodup
    exact hnodup.2.2 _ (List.mem_map_of_mem hmem) _ (List.mem_map_of_mem (List.mem_cons_self ..)) heq
  rw [List.findIdx?_append, List.findIdx?_eq_none_iff.2 fun other hmem => by simpa [hid] using hother other hmem]
  simp [List.findIdx?_cons, hid]

theorem segmentsFromCursor_at {lineage earlier later direction} (hnodup : (lineageIds lineage).Nodup)
    (hlineage : direction.order lineage = earlier ++ segment :: later) {cursor}
    (hid : cursor.physicalThreadId = segment.threadId) (hin : cursorInSegment cursor segment) :
    segmentsFromCursor lineage direction (some cursor) = .ok ((segment, some cursor) :: later.map (·, none)) := by
  cases direction with
  | asc =>
    obtain rfl : lineage = earlier ++ segment :: later := hlineage
    simp [segmentsFromCursor, findIdx_lineage hnodup hid, hin]
  | desc =>
    obtain rfl : lineage = later.reverse ++ segment :: earlier.reverse := by
      rw [← List.reverse_reverse lineage, show lineage.reverse = earlier ++ segment :: later from hlineage]
      simp
    have htake : (later.reverse ++ segment :: earlier.reverse).take (later.length + 1) = later.reverse ++ [segment] := by
      rw [List.append_cons, List.take_left' (by simp)]
    simp [segmentsFromCursor, findIdx_lineage hnodup hid, hin, htake]

/-! ## Pages -/

variable {segments : List (RolloutLineageSegment × Option HistoryCursor)}

section
variable {ρ τ : Type} {table : Table ρ τ} {db : ThreadId → HistoryDb}

theorem take_limit (rows more rest : List α) (limit : Nat) :
    (rows ++ more.take (limit - rows.length) ++ rest).take limit = (rows ++ (more ++ rest)).take limit := by
  have hlength : limit - rows.length - min (limit - rows.length) more.length = limit - rows.length - more.length := by omega
  rw [List.append_assoc, List.take_append, List.take_append, List.take_append, List.take_append, List.take_take,
    List.length_take, Nat.min_self, hlength]

theorem pageLoop_eq {pageSize : Nat} (hsize : pageSize + 1 < 2 ^ 63) {direction}
    (hbind : ∀ s ∈ segments, bindOrdinals s.1 s.2 = .ok ()) {rows} (hrows : rows.length ≤ pageSize + 1) :
    pageLoop table db pageSize direction segments rows =
      .ok ((rows ++ segments.flatMap fun s => selectRows table db direction s.1 s.2).take (pageSize + 1)) := by
  induction segments generalizing rows with
  | nil =>
    rw [pageLoop, List.flatMap_nil, List.append_nil, List.take_of_length_le hrows]
  | cons s segments ih =>
    obtain ⟨segment, cursor⟩ := s
    have hremaining : remainingLimit pageSize rows.length = .ok (pageSize + 1 - rows.length) := by
      have hbound : pageSize + 1 - rows.length < 2 ^ 63 := by omega
      simp only [remainingLimit, if_neg (Nat.not_lt.2 hrows), sqliteInteger_of_lt hbound]
    rw [pageLoop, hremaining]
    simp only [bind, Except.bind]
    split
    · next hfull =>
      rw [List.take_append_of_le_length (by omega), List.take_of_length_le hrows]
    · rw [hbind (segment, cursor) (List.mem_cons_self ..)]
      rw [ih (fun s hs => hbind s (List.mem_cons_of_mem _ hs)), take_limit]
      · rfl
      · rw [List.length_append, List.length_take]
        omega

theorem bindOrdinals_ok {cursor}
    (hend : ∀ ordinal ∈ segment.endOrdinal, ordinal < 2 ^ 63) (hcursor : ∀ c ∈ cursor, c.rolloutOrdinal < 2 ^ 63) :
    bindOrdinals segment cursor = .ok () := by
  have hinteger {value : Nat} (h : value < 2 ^ 63) : ordinalInteger value = .ok value := by
    simp only [ordinalInteger, sqliteInteger_of_lt h]
  have hstart : ordinalInteger segment.startOrdinal = .ok segment.startOrdinal := hinteger (show 1 < 2 ^ 63 by decide)
  simp only [bindOrdinals, hstart]
  cases hopen : segment.endOrdinal with
  | none => cases cursor with
    | none => rfl
    | some c => simp [hinteger (hcursor c rfl), bind, Except.bind, pure, Except.pure]
  | some ordinal => cases cursor with
    | none => simp [hinteger (hend ordinal hopen), bind, Except.bind, pure, Except.pure]
    | some c => simp [hinteger (hend ordinal hopen), hinteger (hcursor c rfl), bind, Except.bind, pure, Except.pure]

/-- A history that can be read: ordinals and segments are distinct, and cursors survive their JSON. -/
structure Readable (table : Table ρ τ) (codec : CursorCodec) (requestedThreadId : ThreadId) (db : ThreadId → HistoryDb)
    (lineage : RolloutLineage) : Prop where
  keyed : table.Keyed db
  nodup : (lineageIds lineage).Nodup
  ends : ∀ segment ∈ lineage, ∀ ordinal ∈ segment.endOrdinal, ordinal < 2 ^ 63
  codec : ∀ row ∈ lineageRows table db lineage, ∀ includeAnchor,
    codec.fromStr (serializeCursor codec requestedThreadId table.scope (table.position row) includeAnchor) =
      some (historyCursor requestedThreadId table.scope (table.position row) includeAnchor)

/-- What a cursor has left of a history, in a direction. -/
def Left (table : Table ρ τ) (codec : CursorCodec) (requestedThreadId : ThreadId) (db : ThreadId → HistoryDb)
    (lineage : RolloutLineage) (direction : SortDirection) (cursor : Option String) (rows : List τ) : Prop :=
  (cursor = none ∧ rows = direction.order (lineageRows table db lineage)) ∨
    ∃ before row after includeAnchor, direction.order (lineageRows table db lineage) = before ++ row :: after ∧
      cursor = some (serializeCursor codec requestedThreadId table.scope (table.position row) includeAnchor) ∧
      rows = fromAnchor includeAnchor row after

theorem mem_order (direction : SortDirection) {l} {a : α} : a ∈ direction.order l ↔ a ∈ l := by
  cases direction with
  | asc => exact Iff.rfl
  | desc => exact List.mem_reverse

variable {codec : CursorCodec} {requestedThreadId : ThreadId} {lineage : RolloutLineage} {direction : SortDirection}
  {cursor : Option String} {rows : List τ} {pageSize : Nat}

theorem pageRows_of_segments {value}
    (hsize : pageSize + 1 < 2 ^ 63) (hparse : parseCursor codec requestedThreadId table.scope cursor = .ok value)
    (hsegments : segmentsFromCursor lineage direction value = .ok segments)
    (hbind : ∀ s ∈ segments, bindOrdinals s.1 s.2 = .ok ()) :
    pageRows table codec requestedThreadId db lineage cursor pageSize direction =
      .ok (finishPage table codec requestedThreadId
        ((segments.flatMap fun s => selectRows table db direction s.1 s.2).take (pageSize + 1)) pageSize) := by
  have hempty : ([] : List τ).length ≤ pageSize + 1 := Nat.zero_le _
  simp only [pageRows, hparse, hsegments, pageLoop_eq hsize hbind hempty, bind, Except.bind]
  rfl

/-- **A page is the first rows of what its cursor has left.** -/
theorem pageRows_eq (h : Readable table codec requestedThreadId db lineage) (hsize : pageSize + 1 < 2 ^ 63)
    (hleft : Left table codec requestedThreadId db lineage direction cursor rows) :
    pageRows table codec requestedThreadId db lineage cursor pageSize direction =
      .ok (finishPage table codec requestedThreadId (rows.take (pageSize + 1)) pageSize) := by
  have hends : ∀ segment ∈ direction.order lineage, ∀ ordinal ∈ segment.endOrdinal, ordinal < 2 ^ 63 :=
    fun segment hmem => h.ends segment ((mem_order direction).1 hmem)
  rcases hleft with ⟨rfl, rfl⟩ | ⟨before, row, after, includeAnchor, hrows, rfl, rfl⟩
  · have hsegments : segmentsFromCursor lineage direction none = .ok ((direction.order lineage).map (·, none)) := by
      cases direction with
      | asc => rfl
      | desc => rfl
    have hbind : ∀ s ∈ (direction.order lineage).map (·, none), bindOrdinals s.1 s.2 = .ok () := by
      intro s hs
      obtain ⟨segment, hsegment, rfl⟩ := List.mem_map.1 hs
      exact bindOrdinals_ok (hends segment hsegment) (by simp)
    rw [pageRows_of_segments hsize rfl hsegments hbind, List.flatMap_map, flatMap_order h.keyed]
  · have hmem : row ∈ lineageRows table db lineage := by
      rw [← mem_order direction, hrows]
      simp
    have hparse : parseCursor codec requestedThreadId table.scope
        (some (serializeCursor codec requestedThreadId table.scope (table.position row) includeAnchor)) =
          .ok (some (historyCursor requestedThreadId table.scope (table.position row) includeAnchor)) := by
      simp [parseCursor, h.codec row hmem, historyCursor]
    rw [← flatMap_order h.keyed] at hrows
    obtain ⟨earlier, segment, later, before', after', hlineage, hsegment, -, rfl⟩ := flatMap_split hrows
    have hin : row ∈ segmentRows table db segment := by
      rw [← mem_order direction, ← selectRows_none h.keyed, hsegment]
      simp
    obtain ⟨hid, hrange, hbound⟩ := position_of_mem_segmentRows h.keyed hin
    generalize hvalue : historyCursor requestedThreadId table.scope (table.position row) includeAnchor = value at hparse
    have hvalueId : value.physicalThreadId = segment.threadId := by rw [← hvalue, ← hid]; rfl
    have hvalueOrdinal : value.rolloutOrdinal = table.ordinalOf row := by rw [← hvalue]; rfl
    have hvalueIn : cursorInSegment value segment := by rw [cursorInSegment, hvalueOrdinal]; exact hrange
    have hbind : ∀ s ∈ (segment, some value) :: later.map (·, none), bindOrdinals s.1 s.2 = .ok () := by
      intro s hs
      rcases List.mem_cons.1 hs with rfl | hs
      · refine bindOrdinals_ok (hends segment (by simp [hlineage])) fun c hc => ?_
        obtain rfl := Option.some.inj hc
        exact hvalueOrdinal ▸ hbound
      · obtain ⟨other, hother, rfl⟩ := List.mem_map.1 hs
        exact bindOrdinals_ok (hends other (by simp [hlineage, hother])) (by simp)
    have hselect : selectRows table db direction segment (some value) = fromAnchor includeAnchor row after' := by
      rw [selectRows_at h.keyed hsegment hvalueOrdinal, ← hvalue]
      rfl
    rw [pageRows_of_segments hsize hparse (segmentsFromCursor_at h.nodup hlineage hvalueId hvalueIn) hbind,
      List.flatMap_cons, List.flatMap_map, hselect]
    cases includeAnchor with
    | true => rfl
    | false => rfl

/-! ## Following cursors -/

theorem finishPage_take (rows : List τ) (pageSize : Nat) :
    finishPage table codec requestedThreadId (rows.take (pageSize + 1)) pageSize =
      { rows := rows.take pageSize
        nextCursor := if pageSize < rows.length then (rows.take pageSize).getLast?.map fun row =>
            serializeCursor codec requestedThreadId table.scope (table.position row) false
          else none
        backwardsCursor := (rows.take pageSize).head?.map fun row =>
          serializeCursor codec requestedThreadId table.scope (table.position row) true } := by
  have hmore : pageSize < (rows.take (pageSize + 1)).length ↔ pageSize < rows.length := by
    rw [List.length_take]
    omega
  have htake : (rows.take (pageSize + 1)).take pageSize = rows.take pageSize := by
    rw [List.take_take, Nat.min_eq_left (Nat.le_succ _)]
  simp only [finishPage, hmore, htake]

/-- What is left is the end of the history. -/
theorem Left.suffix (h : Left table codec requestedThreadId db lineage direction cursor rows) :
    ∃ earlier, direction.order (lineageRows table db lineage) = earlier ++ rows := by
  rcases h with ⟨-, rfl⟩ | ⟨before, row, after, includeAnchor, hrows, -, rfl⟩
  · exact ⟨[], rfl⟩
  · cases includeAnchor with
    | true => exact ⟨before, hrows⟩
    | false =>
      refine ⟨before ++ [row], ?_⟩
      rw [hrows]
      simp [fromAnchor]

/-- The next cursor of a page stands for the rows after it. -/
theorem Left.next (h : Left table codec requestedThreadId db lineage direction cursor rows) (hsize : 0 < pageSize)
    (hmore : pageSize < rows.length) :
    ∃ next, (rows.take pageSize).getLast?.map (fun row =>
        serializeCursor codec requestedThreadId table.scope (table.position row) false) = some next ∧
      Left table codec requestedThreadId db lineage direction (some next) (rows.drop pageSize) := by
  obtain ⟨earlier, hrows⟩ := h.suffix
  have hne : rows.take pageSize ≠ [] := List.ne_nil_of_length_pos (by rw [List.length_take]; omega)
  obtain ⟨init, row, hlast⟩ : ∃ init row, rows.take pageSize = init ++ [row] :=
    ⟨_, _, (List.dropLast_concat_getLast hne).symm⟩
  have hsplit : rows = init ++ row :: rows.drop pageSize := by
    rw [List.append_cons, ← hlast, List.take_append_drop]
  refine ⟨serializeCursor codec requestedThreadId table.scope (table.position row) false, by simp [hlast], .inr ?_⟩
  refine ⟨earlier ++ init, row, rows.drop pageSize, false, ?_, rfl, rfl⟩
  rw [List.append_assoc, ← hsplit, hrows]

/-- The backwards cursor of a page stands for its first row and the rows before it, the other way round. -/
theorem Left.back {earlier rest : List τ} {first : τ}
    (hrows : direction.order (lineageRows table db lineage) = earlier ++ first :: rest) :
    Left table codec requestedThreadId db lineage direction.opposite
      (some (serializeCursor codec requestedThreadId table.scope (table.position first) true)) (first :: earlier.reverse) := by
  refine .inr ⟨rest.reverse, first, earlier.reverse, true, ?_, rfl, rfl⟩
  rw [SortDirection.order_opposite, hrows]
  simp

def fetchRows (table : Table ρ τ) (codec : CursorCodec) (requestedThreadId : ThreadId) (db : ThreadId → HistoryDb)
    (lineage : RolloutLineage) (pageSize : Nat) (direction : SortDirection) (cursor : Option String) :
    Except ThreadStoreError (List τ × Option String) :=
  (pageRows table codec requestedThreadId db lineage cursor pageSize direction).map fun page => (page.rows, page.nextCursor)

theorem fetchRows_stands (h : Readable table codec requestedThreadId db lineage) (hpos : 0 < pageSize)
    (hsize : pageSize + 1 < 2 ^ 63) :
    Stands (fetchRows table codec requestedThreadId db lineage pageSize direction) pageSize
      (Left table codec requestedThreadId db lineage direction) where
  last cursor rows hleft hlength := by
    rw [fetchRows, pageRows_eq h hsize hleft, finishPage_take, if_neg (Nat.not_lt.2 hlength), List.take_of_length_le hlength]
    rfl
  more cursor rows hleft hmore := by
    obtain ⟨next, hnext, hleft'⟩ := hleft.next hpos hmore
    refine ⟨next, ?_, hleft'⟩
    rw [fetchRows, pageRows_eq h hsize hleft, finishPage_take, if_pos hmore, hnext]
    rfl

/-- The cursors that paging can come by, in either direction and with any page sizes. -/
inductive Reached (table : Table ρ τ) (codec : CursorCodec) (requestedThreadId : ThreadId) (db : ThreadId → HistoryDb)
    (lineage : RolloutLineage) : SortDirection → Option String → Prop where
  | start (direction : SortDirection) : Reached table codec requestedThreadId db lineage direction none
  | next {direction : SortDirection} {cursor : Option String} {pageSize : Nat} {page : SegmentPage τ} {next : String}
      (h : Reached table codec requestedThreadId db lineage direction cursor) (hsize : validatePageSize pageSize = .ok ())
      (hpage : pageRows table codec requestedThreadId db lineage cursor pageSize direction = .ok page)
      (hnext : page.nextCursor = some next) : Reached table codec requestedThreadId db lineage direction (some next)
  | back {direction : SortDirection} {cursor : Option String} {pageSize : Nat} {page : SegmentPage τ} {back : String}
      (h : Reached table codec requestedThreadId db lineage direction cursor) (hsize : validatePageSize pageSize = .ok ())
      (hpage : pageRows table codec requestedThreadId db lineage cursor pageSize direction = .ok page)
      (hback : page.backwardsCursor = some back) : Reached table codec requestedThreadId db lineage direction.opposite (some back)

theorem validatePageSize_ok : validatePageSize pageSize = .ok () ↔ 0 < pageSize ∧ pageSize + 1 < 2 ^ 63 := by
  rw [validatePageSize]
  by_cases hzero : pageSize = 0
  · simp [hzero]
  · have hpos : 0 < pageSize := Nat.pos_of_ne_zero hzero
    rw [if_neg hzero]
    by_cases hbound : pageSize + 1 < 2 ^ 63
    · rw [sqliteInteger_of_lt hbound]
      exact iff_of_true rfl ⟨hpos, hbound⟩
    · rw [sqliteInteger_of_le (Nat.not_lt.1 hbound)]
      exact iff_of_false (by simp) fun h => hbound h.2

theorem Reached.left (hreadable : Readable table codec requestedThreadId db lineage)
    (h : Reached table codec requestedThreadId db lineage direction cursor) :
    ∃ rows, Left table codec requestedThreadId db lineage direction cursor rows := by
  induction h with
  | start direction => exact ⟨_, .inl ⟨rfl, rfl⟩⟩
  | @next direction cursor pageSize page next h hsize hpage hnext ih =>
    obtain ⟨rows, hleft⟩ := ih
    obtain ⟨hpos, hbound⟩ := validatePageSize_ok.1 hsize
    rw [pageRows_eq hreadable hbound hleft, finishPage_take] at hpage
    obtain rfl := Except.ok.inj hpage
    by_cases hmore : pageSize < rows.length
    · obtain ⟨next', hnext', hleft'⟩ := hleft.next hpos hmore
      simp only [if_pos hmore, hnext', Option.some.injEq] at hnext
      exact ⟨rows.drop pageSize, hnext ▸ hleft'⟩
    · simp [hmore] at hnext
  | @back direction cursor pageSize page back h hsize hpage hback ih =>
    obtain ⟨rows, hleft⟩ := ih
    obtain ⟨hpos, hbound⟩ := validatePageSize_ok.1 hsize
    rw [pageRows_eq hreadable hbound hleft, finishPage_take] at hpage
    obtain rfl := Except.ok.inj hpage
    obtain ⟨first, hfirst, rfl⟩ := Option.map_eq_some_iff.1 hback
    obtain ⟨rest, hrest⟩ := List.head?_eq_some_iff.1 hfirst
    obtain ⟨earlier, hrows⟩ := hleft.suffix
    rw [← List.take_append_drop pageSize rows, hrest, List.cons_append] at hrows
    exact ⟨_, Left.back hrows⟩

/-! ## Exactness -/

/-- Segments in lineage order, and by ordinal in a segment. -/
def Precedes (table : Table ρ τ) (lineage : RolloutLineage) (a b : τ) : Prop :=
  (lineageIds lineage).idxOf (table.position a).physicalThreadId < (lineageIds lineage).idxOf (table.position b).physicalThreadId ∨
    (table.position a).physicalThreadId = (table.position b).physicalThreadId ∧ table.ordinalOf a < table.ordinalOf b

/-- What it means to page a history exactly. -/
structure PagedExactly (table : Table ρ τ) (codec : CursorCodec) (requestedThreadId : ThreadId) (db : ThreadId → HistoryDb)
    (lineage : RolloutLineage) : Prop where
  /-- The history is the rows in the ranges of the segments, each once. -/
  mem_rows : ∀ row, row ∈ lineageRows table db lineage ↔ ∃ segment ∈ lineage, ∃ old ∈ table.rows (db segment.threadId),
    inSegment segment (table.ordinal old) ∧ row = table.stored segment.threadId old
  nodup : (lineageRows table db lineage).Nodup
  ordered : (lineageRows table db lineage).Pairwise (Precedes table lineage)
  /-- Following next cursors returns the history, in either direction. -/
  forwards : ∀ pageSize direction fuel, validatePageSize pageSize = .ok () → (lineageRows table db lineage).length < fuel →
    follow (fetchRows table codec requestedThreadId db lineage pageSize direction) fuel none =
      .ok (some (direction.order (lineageRows table db lineage)))
  /-- Any page is a part of it, and its backwards cursor goes back over its first row and those before it. -/
  backwards : ∀ pageSize direction cursor, validatePageSize pageSize = .ok () →
    Reached table codec requestedThreadId db lineage direction cursor →
    ∃ page before after, pageRows table codec requestedThreadId db lineage cursor pageSize direction = .ok page ∧
      direction.order (lineageRows table db lineage) = before ++ page.rows ++ after ∧
      (page.rows = [] → page.backwardsCursor = none) ∧
      ∀ first rest, page.rows = first :: rest → ∃ back, page.backwardsCursor = some back ∧
        ∀ pageSize' fuel, validatePageSize pageSize' = .ok () → before.length + 1 < fuel →
          follow (fetchRows table codec requestedThreadId db lineage pageSize' direction.opposite) fuel (some back) =
            .ok (some (first :: before.reverse))

theorem pairwise_idxOf {ids : List ThreadId} (h : ids.Nodup) : ids.Pairwise fun a b => ids.idxOf a < ids.idxOf b := by
  rw [List.pairwise_iff_getElem]
  intro i j hi hj hij
  rwa [h.idxOf_getElem, h.idxOf_getElem]

theorem pairwise_lineageRows (h : Readable table codec requestedThreadId db lineage) :
    (lineageRows table db lineage).Pairwise (Precedes table lineage) := by
  rw [lineageRows, List.pairwise_flatMap]
  have hid {segment : RolloutLineageSegment} {row : τ} (hrow : row ∈ segmentRows table db segment) :
      (table.position row).physicalThreadId = segment.threadId := (position_of_mem_segmentRows h.keyed hrow).1
  constructor
  · intro segment _
    refine (pairwise_segmentRows h.keyed segment).imp_of_mem fun ha hb hlt => .inr ⟨?_, hlt⟩
    rw [hid ha, hid hb]
  · have hsegments : lineage.Pairwise fun a b => (lineageIds lineage).idxOf a.threadId < (lineageIds lineage).idxOf b.threadId :=
      (List.pairwise_map (R := fun a b => (lineageIds lineage).idxOf a < (lineageIds lineage).idxOf b)).1 (pairwise_idxOf h.nodup)
    refine hsegments.imp fun hlt a ha b hb => .inl ?_
    rwa [hid ha, hid hb]

theorem pagedExactly_of_readable (h : Readable table codec requestedThreadId db lineage) :
    PagedExactly table codec requestedThreadId db lineage where
  mem_rows row := by
    simp only [lineageRows, List.mem_flatMap, mem_segmentRows]
  nodup := by
    refine (pairwise_lineageRows h).imp fun hprecedes heq => ?_
    subst heq
    rcases hprecedes with hlt | ⟨-, hlt⟩
    · exact lt_irrefl _ hlt
    · exact lt_irrefl _ hlt
  ordered := pairwise_lineageRows h
  forwards pageSize direction fuel hsize hfuel := by
    obtain ⟨hpos, hbound⟩ := validatePageSize_ok.1 hsize
    refine follow_eq (fetchRows_stands h hpos hbound) hpos (.inl ⟨rfl, rfl⟩) ?_
    cases direction with
    | asc => exact hfuel
    | desc => simpa [SortDirection.order] using hfuel
  backwards pageSize direction cursor hsize hreached := by
    obtain ⟨rows, hleft⟩ := hreached.left h
    obtain ⟨earlier, hrows⟩ := hleft.suffix
    obtain ⟨hpos, hbound⟩ := validatePageSize_ok.1 hsize
    refine ⟨_, earlier, rows.drop pageSize, pageRows_eq h hbound hleft, ?_, ?_, ?_⟩
    · rw [finishPage_take, List.append_assoc, List.take_append_drop, hrows]
    · intro hnil
      rw [finishPage_take] at hnil ⊢
      have hpage : rows.take pageSize = [] := hnil
      simp only [hpage, List.head?_nil, Option.map_none]
    · intro first rest hfirst
      rw [finishPage_take] at hfirst ⊢
      have hpage : rows.take pageSize = first :: rest := hfirst
      refine ⟨serializeCursor codec requestedThreadId table.scope (table.position first) true, ?_,
        fun pageSize' fuel hsize' hfuel => ?_⟩
      · simp only [hpage, List.head?_cons, Option.map_some]
      obtain ⟨hpos', hbound'⟩ := validatePageSize_ok.1 hsize'
      rw [← List.take_append_drop pageSize rows, hpage, List.cons_append] at hrows
      exact follow_eq (fetchRows_stands h hpos' hbound') hpos' (Left.back hrows) (by simpa using hfuel)

end

/-! ## Turns and items -/

/-- The cursors of a history: those at the rows of a database. -/
def IsCursor (requestedThreadId : ThreadId) (db : ThreadId → HistoryDb) (cursor : HistoryCursor) : Prop :=
  cursor.requestedThreadId = requestedThreadId ∧
    (cursor.rolloutOrdinal ∈ turnOrdinals (db cursor.physicalThreadId) ∨
      cursor.rolloutOrdinal ∈ itemOrdinals (db cursor.physicalThreadId))

theorem threadTurns_keyed {db : ThreadId → HistoryDb} (h : Materialised db) : threadTurns.Keyed db where
  nodup threadId := (h.ordered threadId).turns.1
  bound threadId _ hrow :=
    ((h.ordered threadId).turns.2 _ (List.mem_map_of_mem hrow)).trans (h.ordered threadId).bound
  position _ _ := rfl

theorem threadItems_keyed {db : ThreadId → HistoryDb} (h : Materialised db) (turnId : Option String) :
    (threadItems turnId).Keyed db where
  nodup threadId := (h.ordered threadId).items.1.sublist (List.filter_sublist.map _)
  bound threadId _ hrow :=
    ((h.ordered threadId).items.2 _ (List.mem_map_of_mem (List.mem_of_mem_filter hrow))).trans (h.ordered threadId).bound
  position _ _ := rfl

/-- **Paging a forked history is exact**, its turns and its items alike. -/
theorem pageRows_exact {codec : CursorCodec} {requestedThreadId : ThreadId} {db : ThreadId → HistoryDb} {rollouts : Rollouts}
    {lineage : RolloutLineage} (hdb : Materialised db) (hlineage : Resolved rollouts lineage)
    (hends : ∀ segment ∈ lineage, ∀ ordinal ∈ segment.endOrdinal, ordinal < 2 ^ 63)
    (hcodec : ∀ cursor, IsCursor requestedThreadId db cursor → codec.fromStr (codec.toString cursor) = some cursor) :
    PagedExactly threadTurns codec requestedThreadId db lineage ∧
      ∀ turnId, PagedExactly (threadItems turnId) codec requestedThreadId db lineage := by
  refine ⟨pagedExactly_of_readable ⟨threadTurns_keyed hdb, hlineage.nodup, hends, fun row hrow includeAnchor => ?_⟩,
    fun turnId => pagedExactly_of_readable ⟨threadItems_keyed hdb turnId, hlineage.nodup, hends, fun row hrow includeAnchor => ?_⟩⟩
  · obtain ⟨segment, -, hrow⟩ := List.mem_flatMap.1 hrow
    obtain ⟨old, hold, -, rfl⟩ := (mem_segmentRows segment row).1 hrow
    exact hcodec _ ⟨rfl, .inl (List.mem_map_of_mem hold)⟩
  · obtain ⟨segment, -, hrow⟩ := List.mem_flatMap.1 hrow
    obtain ⟨old, hold, -, rfl⟩ := (mem_segmentRows segment row).1 hrow
    exact hcodec _ ⟨rfl, .inr (List.mem_map_of_mem (List.mem_of_mem_filter hold))⟩

/-! ## A fork -/

def rootId : ThreadId := "00000000-0000-7000-8000-000000000000"

def forkId : ThreadId := "00000000-0000-7000-8000-000000000001"

def forkMeta : Text :=
  ["\x7b\"timestamp\":\"", "2025-01-01T00:00:00Z", "\",\"ordinal\":0,", "\"type\":\"session_meta\",", "\"payload\":\x7b",
    "\"session_id\":\"", "00000000-0000-7000-", "8000-000000000001\",", "\"id\":\"00000000-", "0000-7000-8000-",
    "000000000001\",", "\"timestamp\":\"", "2025-01-01T00:00:00Z", "\",\"cwd\":\"/\",", "\"originator\":\"cli\",",
    "\"cli_version\":\"0\",", "\"model_provider\":", "null,\"base_", "instructions\":null,", "\"history_mode\":",
    "\"paginated\",", "\"history_base\":\x7b", "\"thread_id\":\"", "00000000-0000-7000-", "8000-000000000000\",",
    "\"end_ordinal_", "exclusive\":2,", "\"end_byte_offset\":", "482\x7d\x7d\x7d"].flatMap String.toList

def forkFile : Bytes := encode forkMeta ++ newline :: encode sampleTurn ++ [newline]

/-- One call over the whole file. -/
def oneCall (file : Bytes) : List Action := [.append file, .call 0, .call 0, .call 0, .call 0]

/-- A thread of one turn and its fork of another. -/
def forkDb (threadId : ThreadId) : HistoryDb :=
  if threadId = rootId then (History.run sampleParser {} (oneCall sampleFile)).db
  else if threadId = forkId then (History.run (twoRecordParser forkMeta sampleTurn) {} (oneCall forkFile)).db
  else {}

theorem forkDb_materialised : Materialised forkDb := by
  intro threadId
  rw [forkDb]
  split
  · exact ⟨_, _, rfl⟩
  · split
    · exact ⟨_, _, rfl⟩
    · exact ⟨sampleParser, [], rfl⟩

/-- The rollouts of the two, with a cutoff of the root. -/
def forkRollouts (endOrdinal : Nat) : Rollouts :=
  [(rootId, ⟨"root.jsonl", .ok ⟨rootId, .paginated, none⟩, sampleFile.length⟩),
    (forkId, ⟨"fork.jsonl", .ok ⟨forkId, .paginated, some ⟨rootId, endOrdinal, sampleFile.length⟩⟩, forkFile.length⟩)]

def forkLineage (endOrdinal : Nat) : RolloutLineage :=
  [⟨rootId, "root.jsonl", some ⟨rootId, endOrdinal, sampleFile.length⟩⟩, ⟨forkId, "fork.jsonl", none⟩]

theorem forkLineage_resolved {endOrdinal : Nat} (h : endOrdinal ≠ 0) : Resolved (forkRollouts endOrdinal) (forkLineage endOrdinal) := by
  have hne : (forkId == rootId) = false := by decide +kernel
  have hroot : rootId ≠ forkId := by decide +kernel
  have hread : readSegment (forkRollouts endOrdinal) forkId forkId none =
      .ok (⟨forkId, "fork.jsonl", none⟩, some ⟨rootId, endOrdinal, sampleFile.length⟩) := by
    simp [readSegment, forkRollouts, List.lookup_cons, hne, pure, Except.pure]
  have hread' : readSegment (forkRollouts endOrdinal) forkId rootId (some ⟨rootId, endOrdinal, sampleFile.length⟩) =
      .ok (⟨rootId, "root.jsonl", some ⟨rootId, endOrdinal, sampleFile.length⟩⟩, none) := by
    simp [readSegment, forkRollouts, validateCutoffBounds, h, bind, Except.bind, pure, Except.pure]
  refine .inl ⟨forkId, ?_⟩
  have hlength : (forkRollouts endOrdinal).length = 2 := rfl
  simp [resolveRolloutLineage, hlength, resolveLoop, hread, hread', hroot.symm, forkLineage]

/-- The JSON of a cursor whose ids need no escapes. -/
def forkCodec : CursorCodec where
  toString := json
  fromStr text := forkCursors.find? (json · = text)
where
  json (cursor : HistoryCursor) : String :=
    "\x7b\"requestedThreadId\":\"" ++ cursor.requestedThreadId ++ "\",\"physicalThreadId\":\"" ++ cursor.physicalThreadId ++
      "\",\"rolloutOrdinal\":" ++ toString cursor.rolloutOrdinal ++ ",\"includeAnchor\":" ++ toString cursor.includeAnchor ++
      ",\"scope\":\x7b\"kind\":\"" ++ (match cursor.scope with | .turns => "turns" | .items => "items") ++ "\"\x7d\x7d"
  forkCursors : List HistoryCursor := do
    let physicalThreadId ← [rootId, forkId]
    let includeAnchor ← [true, false]
    let scope ← [CursorScope.turns, .items]
    pure { requestedThreadId := forkId, physicalThreadId, rolloutOrdinal := 1, includeAnchor, scope }

theorem forkDb_ordinals (threadId : ThreadId) : (turnOrdinals (forkDb threadId), itemOrdinals (forkDb threadId)) =
    (if threadId = rootId ∨ threadId = forkId then [1] else [], []) := by
  -- one evaluation for both, which share most of their terms
  obtain ⟨hroot, hfork⟩ :
      (turnOrdinals (History.run sampleParser {} (oneCall sampleFile)).db,
        itemOrdinals (History.run sampleParser {} (oneCall sampleFile)).db) = ([1], []) ∧
      (turnOrdinals (History.run (twoRecordParser forkMeta sampleTurn) {} (oneCall forkFile)).db,
        itemOrdinals (History.run (twoRecordParser forkMeta sampleTurn) {} (oneCall forkFile)).db) = ([1], []) := by
    decide +kernel
  by_cases hr : threadId = rootId
  · rw [forkDb, if_pos hr, if_pos (.inl hr)]
    exact hroot
  · by_cases hf : threadId = forkId
    · rw [forkDb, if_neg hr, if_pos hf, if_pos (.inr hf)]
      exact hfork
    · rw [forkDb, if_neg hr, if_neg hf, if_neg (not_or.2 ⟨hr, hf⟩)]
      rfl

theorem forkCodec_roundTrips (cursor : HistoryCursor) (h : IsCursor forkId forkDb cursor) :
    forkCodec.fromStr (forkCodec.toString cursor) = some cursor := by
  obtain ⟨requestedThreadId, physicalThreadId, rolloutOrdinal, includeAnchor, scope⟩ := cursor
  obtain ⟨rfl, hordinal⟩ := h
  have hone : rolloutOrdinal = 1 ∧ (physicalThreadId = rootId ∨ physicalThreadId = forkId) := by
    obtain ⟨hturns, hitems⟩ := Prod.mk.inj (forkDb_ordinals physicalThreadId)
    rw [hturns, hitems] at hordinal
    split at hordinal
    · next hid => exact ⟨by simpa using hordinal, hid⟩
    · simp at hordinal
  obtain ⟨rfl, hid⟩ := hone
  have hall : ∀ cursor ∈ forkCodec.forkCursors, forkCodec.fromStr (forkCodec.toString cursor) = some cursor := by decide +kernel
  refine hall _ ?_
  rcases hid with rfl | rfl <;> cases includeAnchor <;> cases scope <;> decide +kernel

/-- The history of the fork, a turn a page. -/
theorem pageRows_exact_fork :
    (lineageRows threadTurns forkDb (forkLineage 2)).map StoredTurnRow.position = [⟨rootId, 1⟩, ⟨forkId, 1⟩] ∧
      follow (fetchRows threadTurns forkCodec forkId forkDb (forkLineage 2) 1 .desc) 3 none =
        .ok (some (lineageRows threadTurns forkDb (forkLineage 2)).reverse) := by
  have hrows : (lineageRows threadTurns forkDb (forkLineage 2)).map StoredTurnRow.position = [⟨rootId, 1⟩, ⟨forkId, 1⟩] := by
    decide +kernel
  have hlength : (lineageRows threadTurns forkDb (forkLineage 2)).length = 2 := by
    simpa using congrArg List.length hrows
  have hends : ∀ segment ∈ forkLineage 2, ∀ ordinal ∈ segment.endOrdinal, ordinal < 2 ^ 63 := by
    simp [forkLineage, RolloutLineageSegment.endOrdinal]
  have hexact := pageRows_exact forkDb_materialised (forkLineage_resolved (by decide)) hends forkCodec_roundTrips
  exact ⟨hrows, hexact.1.forwards 1 .desc 3 rfl (by omega)⟩

/-- Page sizes and cutoffs that SQLite has no integer for are refused. -/
theorem pageRows_refused :
    Materialised forkDb ∧ Resolved (forkRollouts 2) (forkLineage 2) ∧
      (∀ direction, pageTurnRows forkCodec forkDb forkId (forkLineage 2) none (2 ^ 63 - 1) direction = .error pageSizeTooLarge) ∧
      Resolved (forkRollouts (2 ^ 63)) (forkLineage (2 ^ 63)) ∧
      pageTurnRows forkCodec forkDb forkId (forkLineage (2 ^ 63)) none 1 .asc = .error ordinalTooLarge := by
  refine ⟨forkDb_materialised, forkLineage_resolved (by decide), fun direction => ?_, forkLineage_resolved (by simp), ?_⟩
  · cases direction with
    | asc => rfl
    | desc => rfl
  · rfl

end Codex.Paging
