/-
Projecting a rollout as it grows. However the calls of `materialize_to_sqlite`
interleave with each other and with appends to the file, the database is the
projection of a newline-terminated prefix of the file, each of whose lines has
been applied once (`Projected`). A transaction goes through only when the offset
its call read is still the database's, so the lines it applies are those right
after that prefix.

The session metadata that decides which lines count is the first record, and so the same
for every call once a prefix holds a record.
-/
import Codex.HistoryProjection

namespace Codex.Projection

open Records

/-! ## The lines of a prefix -/

section
variable (parser : LineParser)

def linesOf (file : Bytes) : List CompleteRolloutLine := parseRecords parser 0 (records newline file)

/-- What the parser relies on: JSON may be surrounded by whitespace, and is valid UTF-8. -/
structure LineParser.Lawful : Prop where
  trimmed : ∀ body line, parser.fromSlice (body ++ [newline]) = some line →
    ∃ text, parser.decode body = some text ∧ Text.trim text ≠ [] ∧ parser.fromStr (Text.trim text) = some line

/-- The first record of the file, if it has any yet, is its session metadata. -/
def SessionMetaFirst (file : Bytes) : Prop :=
  ∀ line ∈ (linesOf parser file).head?, ∃ start, line.line.item = .sessionMeta start

end

section
variable {parser : LineParser}

theorem parseRecords_append (start : Nat) (rs rs' : List Bytes) :
    parseRecords parser start (rs ++ rs') =
      parseRecords parser start rs ++ parseRecords parser (start + rs.flatten.length) rs' := by
  induction rs generalizing start with
  | nil => rfl
  | cons r rs ih =>
    simp only [List.cons_append, parseRecords, ih, List.append_assoc, List.flatten_cons, List.length_append]
    rw [Nat.add_assoc]

variable {file seen : Bytes}

/-- The lines after a complete prefix are read from where it ends. -/
theorem linesOf_append (h : Complete newline file) (more : Bytes) :
    linesOf parser (file ++ more) = linesOf parser file ++ parseRecords parser file.length (records newline more) := by
  have hlength : (records newline file).flatten.length = file.length := congrArg List.length h.eq
  rw [linesOf, records_append h, parseRecords_append, hlength, Nat.zero_add]
  rfl

theorem linesOf_complete (file : Bytes) : linesOf parser (complete newline file) = linesOf parser file := by
  rw [linesOf, records_complete]
  rfl

/-- A call that reads from a complete prefix reads the lines up to the last newline. -/
theorem readCompleteRolloutLines_eq {more} (hseen : Complete newline seen) (hfile : file = seen ++ more) :
    readCompleteRolloutLines parser file seen.length =
      some (parseRecords parser seen.length (records newline more), (complete newline file).length) := by
  subst hfile
  rw [readCompleteRolloutLines, if_pos (by simp), List.drop_left, complete_append hseen, List.length_append]
  rfl

/-- The lines of a file stay the first lines of what it grows into. -/
theorem linesOf_isPrefix (h : seen <+: file) : linesOf parser seen <+: linesOf parser file := by
  have hcomplete : complete newline seen <+: file := (complete_isPrefix seen).trans h
  obtain ⟨more, rfl⟩ := hcomplete
  rw [linesOf_append (complete_complete seen), linesOf_complete]
  exact List.prefix_append _ _

theorem SessionMetaFirst.mono (h : SessionMetaFirst parser file) (hpre : seen <+: file) :
    SessionMetaFirst parser seen := by
  obtain ⟨lines, hlines⟩ : linesOf parser seen <+: linesOf parser file := linesOf_isPrefix hpre
  intro line hline
  apply h line
  rw [← hlines, List.head?_append]
  rw [hline]
  rfl

/-! ## Session metadata of a prefix -/

theorem mem_records_of_mem_parseRecords {start : Nat} {rs line}
    (h : line ∈ parseRecords parser start rs) : ∃ r ∈ rs, parser.fromSlice r = some line.line := by
  induction rs generalizing start with
  | nil => simp [parseRecords] at h
  | cons r rs ih =>
    rw [parseRecords, List.mem_append] at h
    rcases h with hr | hrs
    · refine ⟨r, List.mem_cons_self .., ?_⟩
      simp only [parseRecord, Option.mem_toList] at hr
      split at hr
      · cases hr
      · obtain ⟨parsed, hparsed, rfl⟩ := Option.map_eq_some_iff.1 hr
        exact hparsed
    · obtain ⟨r', hr', hline⟩ := ih hrs
      exact ⟨r', List.mem_cons_of_mem _ hr', hline⟩

theorem scanSessionMeta_append {ls} (h : ∃ l ∈ ls, ∃ start, sessionMetaVerdict parser l = .found start)
    (ls' : List Bytes) : scanSessionMeta parser (ls ++ ls') = scanSessionMeta parser ls := by
  induction ls with
  | nil => simp at h
  | cons l ls ih =>
    rw [List.cons_append, scanSessionMeta, scanSessionMeta]
    split
    · next hskip =>
      refine ih ?_
      obtain ⟨l', hl', start, hfound⟩ := h
      rcases List.mem_cons.1 hl' with rfl | hmem
      · rw [hskip] at hfound
        cases hfound
      · exact ⟨l', hmem, start, hfound⟩
    · rfl
    · rfl

/-- The verdict on a line that the projection reads as session metadata. -/
theorem sessionMetaVerdict_of_record (hparser : parser.Lawful) {r} (hr : IsRecord newline r) {line}
    (hline : parser.fromSlice r = some line) {start} (hitem : line.item = .sessionMeta start) :
    sessionMetaVerdict parser r.dropLast = .found start := by
  obtain ⟨body, -, rfl⟩ := hr
  obtain ⟨text, hdecode, hne, hparse⟩ := hparser.trimmed body line hline
  simp only [List.dropLast_concat, sessionMetaVerdict, hdecode, if_neg hne, hparse, hitem]

/-- A prefix that holds a record settles the session metadata of every file that begins with it. -/
theorem readSessionMetaLine_of_isPrefix (hparser : parser.Lawful) (hfirst : SessionMetaFirst parser seen)
    (hseen : Complete newline seen) (hpre : seen <+: file) (hlines : linesOf parser seen ≠ []) :
    readSessionMetaLine parser file = readSessionMetaLine parser seen := by
  obtain ⟨more, rfl⟩ := hpre
  obtain ⟨line, lines, hcons⟩ := List.exists_cons_of_ne_nil hlines
  obtain ⟨start, hitem⟩ := hfirst line (by rw [hcons]; rfl)
  have hmem : line ∈ linesOf parser seen := by
    rw [hcons]
    exact List.mem_cons_self ..
  obtain ⟨r, hr, hparsed⟩ := mem_records_of_mem_parseRecords hmem
  have hfound : ∃ l ∈ (records newline seen).map List.dropLast, ∃ start, sessionMetaVerdict parser l = .found start :=
    ⟨r.dropLast, List.mem_map_of_mem hr, start,
      sessionMetaVerdict_of_record hparser (isRecord_of_mem hr) hparsed hitem⟩
  rw [readSessionMetaLine, readSessionMetaLine, readerLines, readerLines, records_append hseen, List.map_append,
    List.append_assoc, scanSessionMeta_append hfound, scanSessionMeta_append hfound]

end

/-! ## Projections of a split file -/

namespace HistoryDb

/-- The rows under another projection state, on which they do not depend. -/
def withState (db : HistoryDb) (state : Option ProjectionState) : HistoryDb := { db with projectionState := state }

variable (db : HistoryDb) (state : Option ProjectionState)

@[simp] theorem withState_projectionState : (db.withState state).projectionState = state := rfl

@[simp] theorem withState_turns : (db.withState state).turns = db.turns := rfl

@[simp] theorem withState_items : (db.withState state).items = db.items := rfl

@[simp] theorem withState_withState (state' : Option ProjectionState) :
    (db.withState state).withState state' = db.withState state' := rfl

@[simp] theorem withState_self : db.withState db.projectionState = db := rfl

theorem updateTurn_withState (turnId : String) (update : TurnRow → TurnRow) :
    (db.withState state).updateTurn turnId update = (db.updateTurn turnId update).withState state := rfl

theorem upsertTurn_withState (row : TurnRow) : (db.withState state).upsertTurn row = (db.upsertTurn row).withState state := by
  cases h : db.turns.any (·.turnId = row.turnId) <;> simp only [upsertTurn, withState_turns, h] <;> rfl

theorem upsertItem_withState (row : ItemRow) : (db.withState state).upsertItem row = (db.upsertItem row).withState state := by
  cases h : db.items.any (fun old => old.turnId = row.turnId && old.itemId = row.itemId) <;>
    simp only [upsertItem, withState_items, h] <;> rfl

variable (line : ProjectedRolloutLine)

theorem applyTurnChange_withState (turn : ThreadHistoryTurnChange) :
    applyTurnChange line (db.withState state) turn = (applyTurnChange line db turn).withState state := by
  rw [applyTurnChange, upsertTurn_withState]
  rfl

theorem applyItemChange_withState (change : ThreadHistoryItemChange) :
    applyItemChange line (db.withState state) change = (applyItemChange line db change).withState state := by
  simp only [applyItemChange, upsertItem_withState, updateTurn_withState]
  split
  · rfl
  · split <;> rfl

theorem applyChangeSet_withState :
    (db.withState state).applyChangeSet line = (db.applyChangeSet line).withState state := by
  rw [applyChangeSet, List.foldl_hom (·.withState state) fun db turn => applyTurnChange_withState db state line turn,
    List.foldl_hom (·.withState state) fun db change => applyItemChange_withState db state line change]
  rfl

end HistoryDb

variable {db' : HistoryDb}

/-- What a line takes to be applied, and what it does. -/
theorem applyLine_eq_some {db} {next next' : Nat} {line} : applyLine (db, next) line = some (db', next') ↔
      line.ordinal = next ∧ line.startByteOffset < 2 ^ 63 ∧ line.endByteOffset < 2 ^ 63 ∧ next + 1 < 2 ^ 63 ∧
        db' = db.applyChangeSet line ∧ next' = next + 1 := by
  constructor
  · intro h
    simp only [applyLine, sqliteInteger] at h
    split at h
    · simp only [Option.bind_eq_bind, Option.bind_some, ne_eq, ite_not] at h
      split at h
      · next hordinal =>
        split at h
        · split at h
          · split at h
            · simp only [Option.bind_some, Option.pure_def, Option.some.injEq, Prod.mk.injEq] at h
              exact ⟨hordinal, by assumption, by assumption, by assumption, h.1.symm, h.2.symm⟩
            · simp at h
          · simp at h
        · simp at h
      · simp at h
    · simp at h
  · rintro ⟨hordinal, hstart, hend, hnext, rfl, rfl⟩
    have hbound : next < 2 ^ 63 := by omega
    simp [applyLine, hordinal, sqliteInteger_of_lt hbound, sqliteInteger_of_lt hstart, sqliteInteger_of_lt hend,
      sqliteInteger_of_lt hnext]

theorem foldlM_applyLine_withState (state : Option ProjectionState) {projections : List ProjectedRolloutLine}
    {db : HistoryDb} {next next' : Nat} (h : projections.foldlM applyLine (db, next) = some (db', next')) :
    projections.foldlM applyLine (db.withState state, next) = some (db'.withState state, next') := by
  induction projections generalizing db next with
  | nil =>
    simp only [List.foldlM_nil, Option.pure_def, Option.some.injEq, Prod.mk.injEq] at h ⊢
    exact ⟨congrArg (·.withState state) h.1, h.2⟩
  | cons line projections ih =>
    rw [List.foldlM_cons, Option.bind_eq_bind, Option.bind_eq_some_iff] at h ⊢
    obtain ⟨⟨db₁, next₁⟩, hline, hrest⟩ := h
    obtain ⟨hordinal, hstart, hend, hnext, rfl, rfl⟩ := applyLine_eq_some.1 hline
    refine ⟨((db.applyChangeSet line).withState state, next + 1), applyLine_eq_some.2 ?_, ih hrest⟩
    exact ⟨hordinal, hstart, hend, hnext, (db.applyChangeSet_withState state line).symm, rfl⟩

/-- The rows of some lines over those of a database, and the ordinal expected next. -/
def projectRows (parser : LineParser) (start : Option Nat) (lines : List CompleteRolloutLine) (state : HistoryDb × Nat) :
    Option (HistoryDb × Nat) := do
  let projections ← lines.mapM (projectLine parser start)
  projections.foldlM applyLine state

section
variable {parser : LineParser} {start : Option Nat}

theorem projectRows_nil (state : HistoryDb × Nat) : projectRows parser start [] state = some state := rfl

variable {db : HistoryDb} {seen : Bytes}

theorem projectRows_withState (state : Option ProjectionState) {lines : List CompleteRolloutLine}
    {next next' : Nat} (h : projectRows parser start lines (db, next) = some (db', next')) :
    projectRows parser start lines (db.withState state, next) = some (db'.withState state, next') := by
  obtain ⟨projections, hprojections, hfold⟩ := Option.bind_eq_some_iff.1 h
  exact Option.bind_eq_some_iff.2 ⟨projections, hprojections, foldlM_applyLine_withState state hfold⟩

/-- **A split projection is the whole one.** -/
theorem projectRows_append {lines lines' state state₁ state₂}
    (h : projectRows parser start lines state = some state₁) (h' : projectRows parser start lines' state₁ = some state₂) :
    projectRows parser start (lines ++ lines') state = some state₂ := by
  obtain ⟨projections, hprojections, hfold⟩ := Option.bind_eq_some_iff.1 h
  obtain ⟨projections', hprojections', hfold'⟩ := Option.bind_eq_some_iff.1 h'
  have happend : (lines ++ lines').mapM (projectLine parser start) = some (projections ++ projections') := by
    simp [List.mapM_append, hprojections, hprojections']
  refine Option.bind_eq_some_iff.2 ⟨projections ++ projections', happend, ?_⟩
  rw [List.foldlM_append, hfold]
  exact hfold'

/-- What the transaction of a call takes to go through, and what it does. -/
theorem finish_eq_some {startOffset nextOffset : Nat} {lines} :
    finish parser db startOffset nextOffset lines start = some db' ↔
      startOffset < 2 ^ 63 ∧ db.nextRolloutByteOffset = startOffset ∧ nextOffset < 2 ^ 63 ∧
        ∃ rows next, projectRows parser start lines (db, db.nextRolloutOrdinal) = some (rows, next) ∧
          db' = rows.withState (some ⟨nextOffset, next⟩) := by
  constructor
  · intro h
    obtain ⟨projections, hprojections, happly⟩ := Option.bind_eq_some_iff.1 h
    simp only [HistoryDb.applyProjection, sqliteInteger] at happly
    split at happly
    · simp only [Option.bind_eq_bind, Option.bind_some, ne_eq, ite_not] at happly
      split at happly
      · obtain ⟨⟨rows, next⟩, hfold, happly⟩ := Option.bind_eq_some_iff.1 happly
        split at happly
        · simp only [Option.bind_some, Option.pure_def, Option.some.injEq] at happly
          exact ⟨by assumption, by assumption, by assumption, rows, next,
            Option.bind_eq_some_iff.2 ⟨projections, hprojections, hfold⟩, happly.symm⟩
        · simp at happly
      · simp at happly
    · simp at happly
  · rintro ⟨hstart, hoffset, hnext, rows, next, hrows, rfl⟩
    obtain ⟨projections, hprojections, hfold⟩ := Option.bind_eq_some_iff.1 hrows
    refine Option.bind_eq_some_iff.2 ⟨projections, hprojections, ?_⟩
    simp [HistoryDb.applyProjection, sqliteInteger_of_lt hstart, hoffset, sqliteInteger_of_lt hnext, hfold, HistoryDb.withState]

/-! ## The projected prefix -/

/-- The database is the projection of a complete prefix of the file. A prefix without a record may
have no session metadata, and then has no rows either. -/
structure Projected (parser : LineParser) (seen : Bytes) (db : HistoryDb) (start : Option Nat) : Prop where
  complete : Complete newline seen
  bound : seen.length < 2 ^ 63
  session : linesOf parser seen ≠ [] → readSessionMetaLine parser seen = some start
  rows : projectRows parser start (linesOf parser seen) ({}, 0) = some (db.withState none, db.nextRolloutOrdinal)
  state : db.projectionState = if seen = [] then none else some ⟨seen.length, db.nextRolloutOrdinal⟩

theorem Projected.nil (start : Option Nat) : Projected parser [] {} start where
  complete := Complete.nil
  bound := by simp
  session := fun h => absurd rfl h
  rows := rfl
  state := rfl

theorem Projected.nextRolloutByteOffset (h : Projected parser seen db start) :
    db.nextRolloutByteOffset = seen.length := by
  rw [HistoryDb.nextRolloutByteOffset, h.state]
  split
  · next hnil => simp [hnil]
  · rfl

/-- Without a record there are no rows. -/
theorem Projected.eq_of_linesOf_nil (h : Projected parser seen db start)
    (hlines : linesOf parser seen = []) :
    db = { projectionState := if seen = [] then none else some ⟨seen.length, 0⟩ } := by
  have hrows := h.rows
  rw [hlines, projectRows_nil, Option.some.injEq, Prod.mk.injEq] at hrows
  have hdb : db = (db.withState none).withState db.projectionState := rfl
  rw [hdb, ← hrows.1, h.state, ← hrows.2]
  rfl

/-- With one, it is what a single call over the prefix makes of an empty database. -/
theorem Projected.materialize (h : Projected parser seen db start)
    (hlines : seen = [] ∨ linesOf parser seen ≠ []) : materialize parser seen {} = some db := by
  by_cases hnil : seen = []
  · subst hnil
    rw [h.eq_of_linesOf_nil rfl]
    rfl
  have hne : linesOf parser seen ≠ [] := hlines.resolve_left hnil
  have hread : readCompleteRolloutLines parser seen 0 = some (linesOf parser seen, seen.length) := by
    have hread₀ : readCompleteRolloutLines parser seen ([] : Bytes).length = _ := readCompleteRolloutLines_eq Complete.nil rfl
    rwa [h.complete.eq] at hread₀
  have hstate : db.projectionState = some ⟨seen.length, db.nextRolloutOrdinal⟩ := by rw [h.state, if_neg hnil]
  have hfinish : finish parser {} 0 seen.length (linesOf parser seen) start = some db := by
    refine finish_eq_some.2 ⟨by simp, rfl, h.bound, _, _, h.rows, ?_⟩
    rw [HistoryDb.withState_withState, ← hstate]
    rfl
  rw [Projection.materialize, show HistoryDb.nextRolloutByteOffset {} = 0 from rfl, hread]
  simp [hne, h.session hne, hfinish]

/-- **One call goes on from a projected prefix** to a longer one. -/
theorem Projected.append (hparser : parser.Lawful) {seen more db db' start'}
    (h : Projected parser seen db start) (hmore : Complete newline more) (hne : more ≠ [])
    (hfirst : SessionMetaFirst parser (seen ++ more))
    (hsession : linesOf parser (seen ++ more) ≠ [] → readSessionMetaLine parser (seen ++ more) = some start')
    (hfinish : finish parser db seen.length (seen ++ more).length
      (parseRecords parser seen.length (records newline more)) start' = some db') :
    Projected parser (seen ++ more) db' start' := by
  obtain ⟨-, -, hbound, rows, next, hrows, rfl⟩ := finish_eq_some.1 hfinish
  -- The prefix was projected under the same session metadata, or has no lines.
  have hold : projectRows parser start' (linesOf parser seen) ({}, 0) = some (db.withState none, db.nextRolloutOrdinal) := by
    by_cases hlines : linesOf parser seen = []
    · rw [← h.rows, hlines]
      rfl
    · have hlines' : linesOf parser (seen ++ more) ≠ [] := by
        rw [linesOf_append h.complete]
        exact List.append_ne_nil_of_left_ne_nil hlines _
      have hsame : readSessionMetaLine parser (seen ++ more) = readSessionMetaLine parser seen :=
        readSessionMetaLine_of_isPrefix hparser (hfirst.mono (List.prefix_append _ _)) h.complete
          (List.prefix_append _ _) hlines
      have hstart : start' = start := by
        rw [hsession hlines', h.session hlines] at hsame
        exact Option.some.inj hsame
      rw [hstart, h.rows]
  refine ⟨h.complete.append hmore, hbound, hsession, ?_, ?_⟩
  · rw [linesOf_append h.complete]
    have hwhole := projectRows_append hold (projectRows_withState none hrows)
    exact hwhole
  · rw [if_neg (List.append_ne_nil_of_right_ne_nil _ hne)]
    rfl

end

/-! ## Every interleaving -/

section
variable (parser : LineParser)

/-- What a call has read: the lines of `more`, after a complete prefix of a complete prefix of the file. -/
structure Reading (file seen : Bytes) (startOffset nextOffset : Nat) (lines : List CompleteRolloutLine)
    (old more : Bytes) : Prop where
  seen_eq : seen = old ++ more
  old_complete : Complete newline old
  more_complete : Complete newline more
  more_ne_nil : more ≠ []
  startOffset_eq : startOffset = old.length
  nextOffset_eq : nextOffset = seen.length
  lines_eq : lines = parseRecords parser old.length (records newline more)
  in_file : seen <+: file

/-- What holds of a call under way. -/
def CallOk (file : Bytes) (offset : Nat) : MaterializePc → Prop
  | .offsetRead startOffset => startOffset ≤ offset ∧ ∃ old, old.length = startOffset ∧ Complete newline old ∧ old <+: file
  | .linesRead seen startOffset nextOffset lines => ∃ old more, Reading parser file seen startOffset nextOffset lines old more
  | .metaRead seen startOffset nextOffset lines start =>
    (∃ old more, Reading parser file seen startOffset nextOffset lines old more) ∧
      (linesOf parser seen ≠ [] → readSessionMetaLine parser seen = some start)
  | .ready | .returned _ | .failed => True

/-- The invariant of a history: a prefix of the file is projected, each of its lines applied once. -/
structure HistoryOk (s : History) (seen : Bytes) : Prop where
  projected : ∃ start, Projected parser seen s.db start
  in_file : seen <+: s.file
  applied : s.applied = linesOf parser seen
  calls : ∀ i, CallOk parser s.file s.db.nextRolloutByteOffset (s.call i)

end

section
variable {parser : LineParser}

theorem CallOk.mono {file file'} {offset offset' : Nat} {pc} (h : CallOk parser file offset pc)
    (hfile : file <+: file') (hoffset : offset ≤ offset') : CallOk parser file' offset' pc := by
  have grows {seen startOffset nextOffset lines}
      (h : ∃ old more, Reading parser file seen startOffset nextOffset lines old more) :
      ∃ old more, Reading parser file' seen startOffset nextOffset lines old more := by
    obtain ⟨old, more, hreading⟩ := h
    exact ⟨old, more, { hreading with in_file := hreading.in_file.trans hfile }⟩
  cases pc with
  | ready => trivial
  | offsetRead startOffset =>
    obtain ⟨hle, old, hlength, hcomplete, hpre⟩ := h
    exact ⟨hle.trans hoffset, old, hlength, hcomplete, hpre.trans hfile⟩
  | linesRead seen startOffset nextOffset lines => exact grows h
  | metaRead seen startOffset nextOffset lines start => exact ⟨grows h.1, h.2⟩
  | returned seen => trivial
  | failed => trivial

namespace HistoryOk

theorem init : HistoryOk parser {} [] where
  projected := ⟨none, Projected.nil none⟩
  in_file := List.prefix_refl _
  applied := rfl
  calls := fun _ => trivial

variable {s : History} {seen : Bytes}

theorem append (h : HistoryOk parser s seen) (bytes : Bytes) : HistoryOk parser { s with file := s.file ++ bytes } seen where
  projected := h.projected
  in_file := h.in_file.trans (List.prefix_append _ _)
  applied := h.applied
  calls := fun i => (h.calls i).mono (List.prefix_append _ _) (Nat.le_refl _)

/-- A call that only moves on leaves the invariant, if it has read what it should. -/
theorem setCall (h : HistoryOk parser s seen) {i : Nat} {pc}
    (hpc : CallOk parser s.file s.db.nextRolloutByteOffset pc) : HistoryOk parser (s.setCall i pc) seen where
  projected := h.projected
  in_file := h.in_file
  applied := h.applied
  calls := fun j => by
    by_cases hj : j = i
    · simpa [History.setCall, hj] using hpc
    · simpa [History.setCall, hj] using h.calls j

/-- A step of a call that ends where it should: the invariant, and a call that returns has seen what is projected. -/
def Goes (parser : LineParser) (s' : History) (i : Nat) : Prop :=
  ∃ seen', HistoryOk parser s' seen' ∧ ∀ seen, s'.call i = .returned seen → seen = seen'

theorem goes_setCall (h : HistoryOk parser s seen) {i : Nat} {pc}
    (hpc : CallOk parser s.file s.db.nextRolloutByteOffset pc) (hreturned : ∀ seen', pc = .returned seen' → seen' = seen) :
    Goes parser (s.setCall i pc) i := by
  refine ⟨seen, h.setCall hpc, fun seen' hcall => hreturned seen' ?_⟩
  simpa [History.setCall] using hcall

/-- A call that reads the file has read it from the offset up to the last newline. -/
theorem goes_offsetRead (h : HistoryOk parser s seen) {i startOffset : Nat} (hcall : s.call i = .offsetRead startOffset) :
    Goes parser (s.callStep parser i) i := by
  obtain ⟨hle, old, rfl, hold, more, hfile⟩ : CallOk parser s.file s.db.nextRolloutByteOffset (.offsetRead startOffset) :=
    hcall ▸ h.calls i
  have hcomplete : complete newline s.file = old ++ complete newline more := by rw [← hfile, complete_append hold]
  simp only [History.callStep, hcall, readCompleteRolloutLines_eq hold hfile.symm]
  split
  · next hdone =>
    -- Nothing new: the offset is at the end of the complete prefix, and so is what is projected.
    refine h.goes_setCall trivial fun seen' hseen' => ?_
    obtain rfl : complete newline s.file = seen' := by simpa using hseen'
    simp only [Bool.and_eq_true, beq_iff_eq] at hdone
    obtain ⟨start, hprojected⟩ := h.projected
    have hpre : seen <+: complete newline s.file := hprojected.complete.isPrefix_complete h.in_file
    rw [hprojected.nextRolloutByteOffset, hdone.2] at hle
    exact (hpre.eq_of_length_le hle).symm
  · next hmore =>
    refine h.goes_setCall ⟨old, complete newline more, ?_⟩ (by simp)
    refine ⟨hcomplete, hold, complete_complete more, fun hnil => hmore ?_, rfl, rfl, ?_, complete_isPrefix s.file⟩
    · have hrecords : records newline more = [] := by rw [← records_complete, hnil, records_nil]
      simp [hrecords, hcomplete, hnil, parseRecords]
    · rw [records_complete]

theorem goes_linesRead (hparser : parser.Lawful) (h : HistoryOk parser s seen) (hfirst : SessionMetaFirst parser s.file)
    {i startOffset nextOffset : Nat} {read lines}
    (hcall : s.call i = .linesRead read startOffset nextOffset lines) : Goes parser (s.callStep parser i) i := by
  obtain ⟨old, more, hreading⟩ : CallOk parser s.file s.db.nextRolloutByteOffset (.linesRead read startOffset nextOffset lines) :=
    hcall ▸ h.calls i
  have hread : Complete newline read := hreading.seen_eq ▸ hreading.old_complete.append hreading.more_complete
  simp only [History.callStep, hcall]
  split
  · exact h.goes_setCall trivial (by simp)
  · next start hstart =>
    refine h.goes_setCall ⟨⟨old, more, hreading⟩, fun hlines => ?_⟩ (by simp)
    rw [← hstart]
    exact (readSessionMetaLine_of_isPrefix hparser (hfirst.mono hreading.in_file) hread hreading.in_file hlines).symm

/-- A transaction that goes through found its prefix projected, and nothing more. -/
theorem goes_metaRead (hparser : parser.Lawful) (h : HistoryOk parser s seen) (hfirst : SessionMetaFirst parser s.file)
    {i startOffset nextOffset : Nat} {read lines start}
    (hcall : s.call i = .metaRead read startOffset nextOffset lines start) : Goes parser (s.callStep parser i) i := by
  obtain ⟨⟨old, more, hreading⟩, hsession⟩ :
      CallOk parser s.file s.db.nextRolloutByteOffset (.metaRead read startOffset nextOffset lines start) := hcall ▸ h.calls i
  simp only [History.callStep, hcall]
  split
  · exact h.goes_setCall trivial (by simp)
  · next db hfinish =>
    obtain ⟨start₀, hprojected⟩ := h.projected
    have hoffset : seen.length = old.length := by
      obtain ⟨-, hoffset, -⟩ := finish_eq_some.1 hfinish
      rw [← hprojected.nextRolloutByteOffset, hoffset, hreading.startOffset_eq]
    have hold : old = seen := by
      have hin : old ++ more <+: s.file := hreading.seen_eq ▸ hreading.in_file
      exact (List.prefix_of_prefix_length_le ((List.prefix_append old more).trans hin) h.in_file hoffset.ge).eq_of_length
        hoffset.symm
    subst hold
    obtain ⟨rfl, -, hmore, hne, rfl, rfl, rfl, hin⟩ := hreading
    have hnew : Projected parser (old ++ more) db start :=
      hprojected.append hparser hmore hne (hfirst.mono hin) hsession hfinish
    refine ⟨old ++ more, ⟨⟨start, hnew⟩, hin, ?_, fun j => ?_⟩, fun seen hseen => ?_⟩
    · rw [linesOf_append hprojected.complete, ← h.applied]
    · by_cases hj : j = i
      · simp [History.setCall, hj, CallOk]
      · have hgrows : s.db.nextRolloutByteOffset ≤ db.nextRolloutByteOffset := by
          rw [hprojected.nextRolloutByteOffset, hnew.nextRolloutByteOffset, List.length_append]
          exact Nat.le_add_right _ _
        simpa [History.setCall, hj] using (h.calls j).mono (List.prefix_refl _) hgrows
    · simpa [History.setCall, eq_comm] using hseen

theorem goes_callStep (hparser : parser.Lawful) (h : HistoryOk parser s seen) (hfirst : SessionMetaFirst parser s.file)
    {i : Nat} (hcall : ∀ seen', s.call i ≠ .returned seen') : Goes parser (s.callStep parser i) i := by
  match hpc : s.call i with
  | .ready =>
    simp only [History.callStep, hpc]
    obtain ⟨start, hprojected⟩ := h.projected
    exact h.goes_setCall
      ⟨Nat.le_refl _, seen, hprojected.nextRolloutByteOffset.symm, hprojected.complete, h.in_file⟩ (by simp)
  | .offsetRead startOffset => exact h.goes_offsetRead hpc
  | .linesRead read startOffset nextOffset lines => exact h.goes_linesRead hparser hfirst hpc
  | .metaRead read startOffset nextOffset lines start => exact h.goes_metaRead hparser hfirst hpc
  | .returned seen' => exact absurd hpc (hcall seen')
  | .failed =>
    simp only [History.callStep, hpc]
    exact ⟨seen, h, fun seen' hseen' => by rw [hpc] at hseen'; cases hseen'⟩

theorem fail (h : HistoryOk parser s seen) (i : Nat) : HistoryOk parser (s.failStep i) seen := by
  rw [History.failStep]
  split
  · exact h
  · exact h.setCall trivial

end HistoryOk

namespace History

variable (s : History)

@[simp] theorem setCall_file (i : Nat) (pc : MaterializePc) : (s.setCall i pc).file = s.file := rfl

@[simp] theorem setCall_db (i : Nat) (pc : MaterializePc) : (s.setCall i pc).db = s.db := rfl

@[simp] theorem setCall_applied (i : Nat) (pc : MaterializePc) : (s.setCall i pc).applied = s.applied := rfl

@[simp] theorem setCall_self (i : Nat) (pc : MaterializePc) : (s.setCall i pc).call i = pc := by
  simp [setCall]

theorem setCall_of_ne {i j : Nat} (h : j ≠ i) (pc : MaterializePc) : (s.setCall i pc).call j = s.call j := by
  simp [setCall, h]

/-- All that a call's step can do: it moves the call on, or it commits a transaction and returns. -/
theorem callStep_cases (parser : LineParser) (s : History) (i : Nat) :
    s.callStep parser i = s ∨
    ((∀ seen, s.call i ≠ .returned seen) ∧ ∃ pc, s.callStep parser i = s.setCall i pc) ∨
    (∀ seen, s.call i ≠ .returned seen) ∧ ∃ seen startOffset nextOffset lines start db applied,
      finish parser s.db startOffset nextOffset lines start = some db ∧
        s.callStep parser i = { s.setCall i (.returned seen) with db, applied } := by
  rw [callStep]
  split
  · exact .inr (.inl ⟨by simp [*], _, rfl⟩)
  · refine .inr (.inl ⟨by simp [*], ?_⟩)
    split
    · exact ⟨_, rfl⟩
    · split
      · exact ⟨_, rfl⟩
      · exact ⟨_, rfl⟩
  · refine .inr (.inl ⟨by simp [*], ?_⟩)
    split
    · exact ⟨_, rfl⟩
    · exact ⟨_, rfl⟩
  · split
    · exact .inr (.inl ⟨by simp [*], _, rfl⟩)
    · next db hfinish => exact .inr (.inr ⟨by simp [*], _, _, _, _, _, db, _, hfinish, rfl⟩)
  · exact .inl rfl
  · exact .inl rfl

theorem failStep_cases (i : Nat) :
    s.failStep i = s ∨ (∀ seen, s.call i ≠ .returned seen) ∧ s.failStep i = s.setCall i .failed := by
  rw [failStep]
  split
  · exact .inl rfl
  · next h => exact .inr ⟨h, rfl⟩

theorem callStep_file (parser : LineParser) (s : History) (i : Nat) : (s.callStep parser i).file = s.file := by
  obtain h | ⟨-, pc, h⟩ | ⟨-, seen, -, -, -, -, db, applied, -, h⟩ := s.callStep_cases parser i
  all_goals simp [h]

theorem file_step (parser : LineParser) (s : History) (a : Action) : s.file <+: (s.step parser a).file := by
  cases a with
  | append bytes => exact List.prefix_append _ _
  | call i => exact (s.callStep_file parser i).symm ▸ List.prefix_refl _
  | fail i =>
    obtain h | ⟨-, h⟩ := s.failStep_cases i
    all_goals simp [step, h]

theorem returned_step {s : History} {i : Nat} {seen : Bytes} (h : s.call i = .returned seen) (a : Action) :
    (s.step parser a).call i = .returned seen := by
  cases a with
  | append bytes => exact h
  | call j =>
    obtain hj | ⟨hj, pc, hstep⟩ | ⟨hj, seen', -, -, -, -, db, applied, -, hstep⟩ := s.callStep_cases parser j
    · rwa [step, hj]
    · have hne : i ≠ j := fun hij => hj seen (hij ▸ h)
      simp [step, hstep, setCall_of_ne s hne, h]
    · have hne : i ≠ j := fun hij => hj seen (hij ▸ h)
      simp [step, hstep, setCall_of_ne s hne, h]
  | fail j =>
    obtain hj | ⟨hj, hstep⟩ := s.failStep_cases j
    · rwa [step, hj]
    · have hne : i ≠ j := fun hij => hj seen (hij ▸ h)
      simp [step, hstep, setCall_of_ne s hne, h]

theorem returned_run {s : History} {i : Nat} {seen : Bytes} (h : s.call i = .returned seen) (actions : List Action) :
    (s.run parser actions).call i = .returned seen := by
  induction actions generalizing s with
  | nil => exact h
  | cons a actions ih => exact ih (returned_step h a)

theorem step_unchanged {s : History} {a : Action}
    (h : ∀ i seen, a = .call i → (s.step parser a).call i ≠ .returned seen) :
    (s.step parser a).db = s.db ∧ (s.step parser a).applied = s.applied := by
  cases a with
  | append bytes => exact ⟨rfl, rfl⟩
  | call i =>
    obtain hi | ⟨-, pc, hi⟩ | ⟨-, seen, -, -, -, -, db, applied, -, hi⟩ := s.callStep_cases parser i
    · simp [step, hi]
    · simp [step, hi]
    · exact absurd (by simp [step, hi]) (h i seen rfl)
  | fail i =>
    obtain hi | ⟨-, hi⟩ := s.failStep_cases i
    all_goals simp [step, hi]

/-- **A call that fails changes nothing**, at any of its steps. -/
theorem step_of_failed {s : History} {a : Action} {i : Nat} (ha : a = .call i ∨ a = .fail i) {after}
    (h : ((s.step parser a).run parser after).call i = .failed) :
    (s.step parser a).db = s.db ∧ (s.step parser a).applied = s.applied := by
  refine step_unchanged fun j seen hj hreturned => ?_
  obtain rfl : j = i := by
    rcases ha with rfl | rfl
    · exact Action.call.inj hj.symm
    · cases hj
  rw [returned_run hreturned] at h
  cases h

end History

theorem HistoryOk.step (hparser : parser.Lawful) {s seen} (h : HistoryOk parser s seen)
    (hfirst : SessionMetaFirst parser s.file) (a : Action) : ∃ seen', HistoryOk parser (s.step parser a) seen' := by
  cases a with
  | append bytes => exact ⟨seen, h.append bytes⟩
  | call i =>
    by_cases hreturned : ∃ seen', s.call i = .returned seen'
    · obtain ⟨seen', hseen'⟩ := hreturned
      refine ⟨seen, ?_⟩
      simpa only [History.step, History.callStep, hseen'] using h
    · obtain ⟨seen', h', -⟩ := h.goes_callStep hparser hfirst (not_exists.1 hreturned)
      exact ⟨seen', h'⟩
  | fail i => exact ⟨seen, h.fail i⟩

theorem History.run_append (parser : LineParser) (s : History) (before after : List Action) :
    s.run parser (before ++ after) = (s.run parser before).run parser after := List.foldl_append

theorem History.file_run (parser : LineParser) (s : History) (actions : List Action) : s.file <+: (s.run parser actions).file := by
  induction actions generalizing s with
  | nil => exact List.prefix_refl _
  | cons a actions ih => exact (s.file_step parser a).trans (ih _)

/-- **What a run preserves.** -/
theorem historyOk_run (hparser : parser.Lawful) {actions}
    (hfirst : SessionMetaFirst parser (History.run parser {} actions).file) :
    ∃ seen, HistoryOk parser (History.run parser {} actions) seen := by
  induction actions using List.reverseRecOn with
  | nil => exact ⟨[], HistoryOk.init⟩
  | append_singleton actions a ih =>
    rw [History.run_append] at hfirst ⊢
    have hbefore := hfirst.mono (History.file_run parser _ [a])
    obtain ⟨seen, h⟩ := ih hbefore
    exact h.step hparser hbefore a

theorem parseRecords_startByteOffset_ge {start : Nat} {rs line}
    (h : line ∈ parseRecords parser start rs) : start ≤ line.startByteOffset := by
  induction rs generalizing start with
  | nil => simp [parseRecords] at h
  | cons r rs ih =>
    rw [parseRecords, List.mem_append] at h
    rcases h with hr | hrs
    · simp only [parseRecord, Option.mem_toList] at hr
      split at hr
      · cases hr
      · obtain ⟨parsed, -, rfl⟩ := Option.map_eq_some_iff.1 hr
        exact Nat.le_refl _
    · exact (Nat.le_add_right _ _).trans (ih hrs)

/-- Each line is at its own place in the file. -/
theorem pairwise_parseRecords (start : Nat) {rs} (h : ∀ r ∈ rs, IsRecord newline r) :
    (parseRecords parser start rs).Pairwise fun a b => a.startByteOffset < b.startByteOffset := by
  induction rs generalizing start with
  | nil => exact List.Pairwise.nil
  | cons r rs ih =>
    have hlength : 0 < r.length := by
      obtain ⟨body, -, rfl⟩ := h r (List.mem_cons_self ..)
      simp
    refine List.pairwise_append.2 ⟨?_, ih _ fun r' hr' => h r' (List.mem_cons_of_mem _ hr'), fun a ha b hb => ?_⟩
    · cases parseRecord parser start r with
      | none => exact List.Pairwise.nil
      | some line => exact List.pairwise_singleton _ _
    · have hb' := parseRecords_startByteOffset_ge hb
      simp only [parseRecord, Option.mem_toList] at ha
      split at ha
      · cases ha
      · obtain ⟨parsed, -, rfl⟩ := Option.map_eq_some_iff.1 ha
        exact Nat.lt_of_lt_of_le (Nat.lt_add_of_pos_right hlength) hb'

/-- **Incremental projection is projection.** A call that returns leaves what one call over the complete prefix it saw
makes of an empty database, each line applied once; one that fails changes nothing. -/
theorem materialize_interleaved (hparser : parser.Lawful) (actions : List Action)
    (hfirst : SessionMetaFirst parser (History.run parser {} actions).file) :
    (∀ before after i seen, actions = before ++ .call i :: after →
      (∀ seen', (History.run parser {} before).call i ≠ .returned seen') →
      (History.run parser {} (before ++ [.call i])).call i = .returned seen →
      Complete newline seen ∧ seen <+: (History.run parser {} before).file ∧
      (History.run parser {} (before ++ [.call i])).applied = linesOf parser seen ∧
      (linesOf parser seen).Pairwise (fun a b => a.startByteOffset < b.startByteOffset) ∧
      (seen = [] ∨ linesOf parser seen ≠ [] →
        materialize parser seen {} = some (History.run parser {} (before ++ [.call i])).db) ∧
      (linesOf parser seen = [] →
        (History.run parser {} (before ++ [.call i])).db =
          { projectionState := if seen = [] then none else some ⟨seen.length, 0⟩ })) ∧
    (∀ before a after i, actions = before ++ a :: after → a = .call i ∨ a = .fail i →
      (History.run parser {} actions).call i = .failed →
      (History.run parser {} (before ++ [a])).db = (History.run parser {} before).db ∧
      (History.run parser {} (before ++ [a])).applied = (History.run parser {} before).applied) := by
  constructor
  · rintro before after i seen rfl hrunning hreturned
    rw [History.run_append] at hfirst
    have hbefore := hfirst.mono (History.file_run parser _ (.call i :: after))
    obtain ⟨seen₀, h⟩ := historyOk_run hparser hbefore
    rw [History.run_append] at hreturned ⊢
    obtain ⟨seen', h', hseen'⟩ := h.goes_callStep hparser hbefore hrunning
    obtain rfl := hseen' seen hreturned
    obtain ⟨start, hprojected⟩ := h'.projected
    have hin : seen <+: (History.run parser {} before).file := History.callStep_file parser _ i ▸ h'.in_file
    exact ⟨hprojected.complete, hin, h'.applied, pairwise_parseRecords 0 fun r => isRecord_of_mem,
      hprojected.materialize, hprojected.eq_of_linesOf_nil⟩
  · rintro before a after i rfl ha hfailed
    rw [History.run_append] at hfailed ⊢
    exact History.step_of_failed ha hfailed

end

/-! ## A rollout of two records -/

def sampleTimestamp : Text := "2025-01-01T00:00:00Z".toList

def sampleMeta : Text :=
  ["\x7b\"timestamp\":\"", "2025-01-01T00:00:00Z", "\",\"ordinal\":0,", "\"type\":\"session_meta\",", "\"payload\":\x7b",
    "\"session_id\":\"", "00000000-0000-7000-", "8000-000000000000\",", "\"id\":\"00000000-", "0000-7000-8000-",
    "000000000000\",", "\"timestamp\":\"", "2025-01-01T00:00:00Z", "\",\"cwd\":\"/\",", "\"originator\":\"cli\",",
    "\"cli_version\":\"0\",", "\"model_provider\":", "null,\"base_", "instructions\":null,", "\"history_mode\":",
    "\"paginated\"\x7d\x7d"].flatMap String.toList

def sampleTurn : Text :=
  ["\x7b\"timestamp\":\"", "2025-01-01T00:00:00Z", "\",\"ordinal\":1,", "\"type\":\"event_msg\",", "\"payload\":\x7b",
    "\"type\":\"task_started\",", "\"turn_id\":\"turn\",", "\"model_context_", "window\":null\x7d\x7d"].flatMap String.toList

def asciiDecode (bytes : Bytes) : Option Text :=
  if bytes.all (· < 128) then some (bytes.map fun b => Char.ofNat b.toNat) else none

/-- The parser on ASCII files with a session's metadata and a turn. -/
def twoRecordParser (sessionMeta turn : Text) : LineParser where
  fromSlice record := (asciiDecode (if record.getLast? = some newline then record.dropLast else record)).bind
    fun text => fromStr (Text.trim text)
  decode := asciiDecode
  fromStr := fromStr
  unknownHistoryMode _ := false
  parseTimestamp text := if text = sampleTimestamp then some 1735689600000 else none
where
  fromStr (text : Text) : Option RolloutLine :=
    if text = sessionMeta then some ⟨some 0, sampleTimestamp, .sessionMeta none⟩
    else if text = turn then some ⟨some 1, sampleTimestamp, .turnStarted "turn" none⟩
    else none

def sampleParser : LineParser := twoRecordParser sampleMeta sampleTurn

def encode (text : Text) : Bytes := text.map fun c => UInt8.ofNat c.toNat

theorem sampleParser_lawful : sampleParser.Lawful where
  trimmed body line h := by
    simp only [sampleParser, twoRecordParser, List.getLast?_concat, if_pos, List.dropLast_concat] at h
    obtain ⟨text, hdecode, hline⟩ := Option.bind_eq_some_iff.1 h
    refine ⟨text, hdecode, fun hnil => ?_, hline⟩
    have hnone : twoRecordParser.fromStr sampleMeta sampleTurn [] = none := by decide +kernel
    rw [hnil, hnone] at hline
    cases hline

def sampleFile : Bytes := encode sampleMeta ++ newline :: encode sampleTurn ++ [newline]

/-- Two calls, the first of which sees half of the turn's record; the second has not committed yet. -/
def sampleActions : List Action :=
  [.append (encode sampleMeta ++ newline :: (encode sampleTurn).take 40), .call 0, .call 0, .call 0, .call 0,
    .append ((encode sampleTurn).drop 40 ++ [newline]), .call 1, .call 1, .call 1]

/-- The second call goes on where the first stopped. -/
theorem materialize_interleaved_torn :
    (History.run sampleParser {} (sampleActions ++ [.call 1])).db.turns.map (·.turnId) = ["turn"] ∧
      materialize sampleParser sampleFile {} = some (History.run sampleParser {} (sampleActions ++ [.call 1])).db := by
  -- one evaluation for all five, which share most of their terms
  obtain ⟨hlines, hhead, hpc, hreturned, hturns⟩ :
      linesOf sampleParser sampleFile ≠ [] ∧
      (linesOf sampleParser (History.run sampleParser {} (sampleActions ++ [.call 1])).file).head?.map (·.line.item) =
        some (.sessionMeta none) ∧
      (History.run sampleParser {} sampleActions).call 1 =
        .metaRead sampleFile (encode sampleMeta).length.succ sampleFile.length ((linesOf sampleParser sampleFile).drop 1) none ∧
      (History.run sampleParser {} (sampleActions ++ [.call 1])).call 1 = .returned sampleFile ∧
      (History.run sampleParser {} (sampleActions ++ [.call 1])).db.turns.map (·.turnId) = ["turn"] := by
    decide +kernel
  have hfirst : SessionMetaFirst sampleParser (History.run sampleParser {} (sampleActions ++ [.call 1])).file := by
    intro line hline
    rw [Option.mem_def.1 hline] at hhead
    exact ⟨none, Option.some.inj hhead⟩
  have hrunning : ∀ seen, (History.run sampleParser {} sampleActions).call 1 ≠ .returned seen := by
    intro seen hseen
    rw [hpc] at hseen
    cases hseen
  have hrun := materialize_interleaved sampleParser_lawful (sampleActions ++ [.call 1])
  have hcall := (hrun hfirst).1 sampleActions [] 1 sampleFile rfl hrunning hreturned
  exact ⟨hturns, hcall.2.2.2.2.1 (.inr hlines)⟩

/-- A blank line before session metadata that has no newline yet: the call skips the line, which by itself is no rollout. -/
theorem materialize_interleaved_blank :
    let actions := [Action.append (newline :: encode sampleMeta), .call 0, .call 0, .call 0, .call 0]
    sampleParser.Lawful ∧ SessionMetaFirst sampleParser (History.run sampleParser {} actions).file ∧
      (History.run sampleParser {} actions).call 0 = .returned [newline] ∧
      (History.run sampleParser {} actions).db = { projectionState := some ⟨1, 0⟩ } ∧
      materialize sampleParser [newline] {} = none := by
  intro actions
  obtain ⟨hlines, hreturned, hdb, hnone⟩ :
      linesOf sampleParser (History.run sampleParser {} actions).file = [] ∧
      (History.run sampleParser {} actions).call 0 = .returned [newline] ∧
      (History.run sampleParser {} actions).db = { projectionState := some ⟨1, 0⟩ } ∧
      materialize sampleParser [newline] {} = none := by
    decide +kernel
  refine ⟨sampleParser_lawful, fun line hline => ?_, hreturned, hdb, hnone⟩
  rw [hlines] at hline
  cases hline

end Codex.Projection
