/-
Searching a thread in pages. One page is what the loops of `searchRows` push before it is
full (`searchRows_fits`, `searchRows_full`); a cursor stands for the matches from the one
it names on.
-/
import Codex.LineagePages
import Codex.SearchMatches

namespace Codex.Search

open Paging (ThreadId)
open Projection (ItemRow TurnRow HistoryDb isUserMessage)
open SeekPaging

/-! ## What there is to find -/

/-- Where the lower-cased term is in the lower case of a text. -/
def found (lib : Libraries) (searchTerm text : Text) : List Nat :=
  LiteralSearch.occurrences (toLowercase lib.tables searchTerm) (toLowercase lib.tables text)

/-- A match: its row, the text that is searched and the place in the lower case of the text. -/
structure Match where
  row : CandidateRow
  text : Text
  place : Nat

def rowMatches (lib : Libraries) (searchTerm : Text) (row : CandidateRow) : List Match :=
  match searchableText lib row.item with
  | none => []
  | some text => (found lib searchTerm text).map fun place => { row, text, place }

/-- An occurrence shows a match: its range selects the characters whose lower case the match touches. -/
def Shows (lib : Libraries) (threadId : ThreadId) (searchTerm : Text) (m : Match) (occurrence : StoredThreadOccurrence) : Prop :=
  occurrence.turnId = m.row.turnId ∧ occurrence.itemId = m.row.itemId ∧
    occurrence.turnCursor = Paging.serializeCursor lib.historyCursors threadId .turns ⟨threadId, m.row.turnRolloutOrdinal⟩ true ∧
    ∃ i j, Covers lib.tables m.text m.place (toLowercase lib.tables searchTerm).length i j ∧
      Selects occurrence ((m.text.take (j + 1)).drop i)

/-- A cursor that the search hands out names a match of a row. -/
def IsCursor (lib : Libraries) (threadId : ThreadId) (searchTerm : Text) (rows : List CandidateRow) (cursor : SearchCursor) :
    Prop :=
  ∃ row ∈ rows, ∃ index < (rowMatches lib searchTerm row).length, cursor = ⟨threadId, searchTerm, row.rolloutOrdinal, index⟩

def fetchPage (lib : Libraries) (store : LocalThreadStore) (threadId : ThreadId) (searchTerm : Text) (pageSize : Nat)
    (cursor : Option String) : Except SearchFailure (List StoredThreadOccurrence × Option String) :=
  (searchThreadOccurrences lib { threadId, searchTerm, cursor, pageSize } store).map fun page => (page.items, page.nextCursor)

/-! ## The matches of a row -/

section
variable {lib : Libraries} {params : SearchThreadOccurrencesParams}

def rangeAt (lib : Libraries) (searchTerm text : Text) (place : Nat) : ByteRange :=
  ((LiteralMatcher.new lib.tables searchTerm).originalRange (spansFrom lib.tables 0 0 text)
    (len ((toLowercase lib.tables text).take place))).getD default

def shown (lib : Libraries) (params : SearchThreadOccurrencesParams) (row : CandidateRow) (text : Text) (range : ByteRange) :
    StoredThreadOccurrence :=
  (occurrenceInItem row.turnId row.itemId text range (turnCursor lib params row)).getD default

def occurrenceOf (lib : Libraries) (params : SearchThreadOccurrencesParams) (m : Match) : StoredThreadOccurrence :=
  shown lib params m.row m.text (rangeAt lib params.searchTerm m.text m.place)

def rowOccurrences (lib : Libraries) (params : SearchThreadOccurrencesParams) (row : CandidateRow) :
    List StoredThreadOccurrence :=
  (rowMatches lib params.searchTerm row).map (occurrenceOf lib params)

variable {searchTerm text : Text} {cursor : Option SearchCursor} {row : CandidateRow}
  {items : List StoredThreadOccurrence}

theorem lowercase_ne_nil {tables} (h : Text.trim searchTerm ≠ []) : toLowercase tables searchTerm ≠ [] := by
  cases searchTerm with
  | nil => exact absurd rfl h
  | cons c rest =>
    intro hnil
    obtain ⟨hpiece, -⟩ := List.append_eq_nil_iff.1 hnil
    split at hpiece
    · exact List.cons_ne_nil _ _ hpiece
    · exact tables.charToLowercase_ne_nil c hpiece

/-- The range of a match exists. -/
theorem rangeAt_spec {place : Nat} (hne : toLowercase lib.tables searchTerm ≠ [])
    (h : place ∈ found lib searchTerm text) :
    ∃ i j, Covers lib.tables text place (toLowercase lib.tables searchTerm).length i j ∧
      rangeAt lib searchTerm text place = ⟨len (text.take i), len (text.take (j + 1))⟩ ∧
      (LiteralMatcher.new lib.tables searchTerm).originalRange (spansFrom lib.tables 0 0 text)
        (len ((toLowercase lib.tables text).take place)) = some (rangeAt lib searchTerm text place) := by
  obtain ⟨i, j, hcovers, hrange⟩ :=
    @exists_originalRange lib.tables _ text _ hne ((LiteralSearch.occurrences_spec hne _).occurs place h)
  refine ⟨i, j, hcovers, ?_, ?_⟩
  · rw [rangeAt, LiteralMatcher.new, hrange]
    rfl
  · rw [rangeAt, LiteralMatcher.new, hrange]
    rfl

theorem filterMap_eq_map_of_some {α β : Type} {f : α → Option β} {g : α → β} {l : List α} (h : ∀ a ∈ l, f a = some (g a)) :
    l.filterMap f = l.map g := by
  rw [List.filterMap_congr h, List.filterMap_eq_map']

/-- No match is lost between the two texts, and the limit cuts the list. -/
theorem findRanges_eq (hne : toLowercase lib.tables searchTerm ≠ []) (text : Text) (limit : Nat) :
    (LiteralMatcher.new lib.tables searchTerm).findRanges lib.tables text limit =
      ((found lib searchTerm text).map (rangeAt lib searchTerm text)).take limit := by
  rw [LiteralMatcher.findRanges, matchIndices, ← List.map_take, List.filterMap_map, ← List.map_take]
  apply filterMap_eq_map_of_some
  intro place hplace
  obtain ⟨i, j, -, -, hrange⟩ := rangeAt_spec hne (List.mem_of_mem_take hplace)
  exact hrange

/-- **Every match is shown.** -/
theorem occurrenceInItem_eq {row : CandidateRow} {text : Text} {place : Nat} (hne : toLowercase lib.tables params.searchTerm ≠ [])
    (hstored : (encodeUtf16 text).length < 2 ^ 31) (h : place ∈ found lib params.searchTerm text) :
    occurrenceInItem row.turnId row.itemId text (rangeAt lib params.searchTerm text place) (turnCursor lib params row) =
        some (occurrenceOf lib params ⟨row, text, place⟩) ∧
      Shows lib params.threadId params.searchTerm ⟨row, text, place⟩ (occurrenceOf lib params ⟨row, text, place⟩) := by
  obtain ⟨i, j, hcovers, hrange, -⟩ := rangeAt_spec hne h
  have hsplit : text.take i ++ (text.take (j + 1)).drop i ++ text.drop (j + 1) = text := by
    have hfirst : text.take i = (text.take (j + 1)).take i := by
      rw [List.take_take, Nat.min_eq_left (by have := hcovers.ordered; omega)]
    rw [hfirst, List.take_append_drop, List.take_append_drop]
  have hmiddle : text.take i ++ (text.take (j + 1)).drop i = text.take (j + 1) := by
    have := congrArg (List.take (j + 1)) hsplit
    rwa [List.take_left' (by
      have := hcovers.ordered
      have := hcovers.inText
      simp only [List.length_append, List.length_drop, List.length_take]
      omega)] at this
  obtain ⟨occurrence, hoccurrence, hturn, hitem, hcursor, hselects⟩ :=
    exists_occurrence row.turnId row.itemId (turnCursor lib params row) (hsplit.symm ▸ hstored)
  rw [hsplit, hmiddle, ← hrange] at hoccurrence
  have heq : occurrenceOf lib params ⟨row, text, place⟩ = occurrence := by
    rw [occurrenceOf, shown, hoccurrence]
    rfl
  rw [heq]
  exact ⟨hoccurrence, hturn, hitem, hcursor, i, j, hcovers, hselects⟩

/-! ## A page -/

/-- The matches of a row can be read. -/
def Readable (lib : Libraries) (params : SearchThreadOccurrencesParams) (row : CandidateRow) : Prop :=
  ∀ text, searchableText lib row.item = some text → ∀ place ∈ found lib params.searchTerm text,
    occurrenceInItem row.turnId row.itemId text (rangeAt lib params.searchTerm text place) (turnCursor lib params row) =
      some (occurrenceOf lib params ⟨row, text, place⟩)

/-- What a page with a cursor has of a row. -/
def rowItems (lib : Libraries) (params : SearchThreadOccurrencesParams) (cursor : Option SearchCursor) (row : CandidateRow) :
    List StoredThreadOccurrence :=
  (rowOccurrences lib params row).drop (firstOccurrenceIndex cursor row)

theorem zipIdx_take_drop {α : Type} (l : List α) (first n : Nat) :
    ((l.take (first + n)).zipIdx).drop first = ((l.drop first).take n).zipIdx first := by
  apply List.ext_getElem?
  intro i
  rw [List.getElem?_drop, List.getElem?_zipIdx, List.getElem?_zipIdx, List.getElem?_take, List.getElem?_take, List.getElem?_drop]
  simp only [Nat.add_lt_add_iff_left, Nat.zero_add]

theorem pushOccurrences_fits {row : CandidateRow} {text : Text} {l : List ByteRange} {occ : ByteRange → StoredThreadOccurrence}
    (hocc : ∀ range ∈ l, occurrenceInItem row.turnId row.itemId text range (turnCursor lib params row) = some (occ range))
    (index : Nat) {items : List StoredThreadOccurrence} (h : items.length + l.length ≤ params.pageSize) :
    pushOccurrences lib params row text (l.zipIdx index) items = .ok (items ++ l.map occ, none) := by
  induction l generalizing index items with
  | nil => rw [List.zipIdx_nil, pushOccurrences, List.map_nil, List.append_nil]
  | cons range l ih =>
    rw [List.length_cons] at h
    rw [List.zipIdx_cons, pushOccurrences, if_neg (by omega), hocc range (List.mem_cons_self ..)]
    have hrest := @ih (fun r hr => hocc r (List.mem_cons_of_mem _ hr)) (index + 1) (items ++ [occ range])
      (by rw [List.length_append, List.length_singleton]; omega)
    simp only [hrest, List.map_cons, List.append_assoc, List.singleton_append]

theorem pushOccurrences_full {row : CandidateRow} {text : Text} {l : List ByteRange} {occ : ByteRange → StoredThreadOccurrence}
    (hocc : ∀ range ∈ l, occurrenceInItem row.turnId row.itemId text range (turnCursor lib params row) = some (occ range))
    (index : Nat) {items : List StoredThreadOccurrence} (hle : items.length ≤ params.pageSize)
    (h : params.pageSize < items.length + l.length) :
    pushOccurrences lib params row text (l.zipIdx index) items =
      .ok (items ++ (l.map occ).take (params.pageSize - items.length), some
        ⟨params.threadId, params.searchTerm, row.rolloutOrdinal, index + (params.pageSize - items.length)⟩) := by
  induction l generalizing index items with
  | nil =>
    rw [List.length_nil] at h
    omega
  | cons range l ih =>
    rw [List.zipIdx_cons, pushOccurrences]
    by_cases hfull : items.length = params.pageSize
    · rw [if_pos hfull, hfull, Nat.sub_self, List.take_zero, List.append_nil]
      rfl
    · rw [if_neg hfull, hocc range (List.mem_cons_self ..)]
      rw [List.length_cons] at h
      have hlength : (items ++ [occ range]).length = items.length + 1 := List.length_append
      have hrest := @ih (fun r hr => hocc r (List.mem_cons_of_mem _ hr)) (index + 1) (items ++ [occ range])
        (by omega) (by omega)
      obtain ⟨room, hroom⟩ : ∃ room, params.pageSize - items.length = room + 1 := ⟨params.pageSize - items.length - 1, by omega⟩
      rw [hlength, show params.pageSize - (items.length + 1) = room by omega, Nat.add_assoc, Nat.add_comm 1 room] at hrest
      simp only [hrest, hroom, List.map_cons, List.take_succ_cons, List.append_assoc, List.singleton_append]

/-- The matches of a row that a page pushes: those from the first one on that fit, and one more. -/
theorem rowRanges_eq (hne : toLowercase lib.tables params.searchTerm ≠ []) :
    rowRanges lib params cursor row text items =
      ((((found lib params.searchTerm text).map (rangeAt lib params.searchTerm text)).drop (firstOccurrenceIndex cursor row)).take
        (params.pageSize + 1 - items.length)).zipIdx (firstOccurrenceIndex cursor row) := by
  simp only [rowRanges, findRanges_eq hne, zipIdx_take_drop]

theorem rowOccurrences_of_some (htext : searchableText lib row.item = some text) :
    rowOccurrences lib params row =
      ((found lib params.searchTerm text).map (rangeAt lib params.searchTerm text)).map (shown lib params row text) := by
  simp only [rowOccurrences, rowMatches, htext, List.map_map]
  rfl

theorem rowItems_of_none (h : searchableText lib row.item = none) (cursor : Option SearchCursor) :
    rowItems lib params cursor row = [] := by
  simp only [rowItems, rowOccurrences, rowMatches, h, List.map_nil, List.drop_nil]

theorem pushRow_fits
    (hne : toLowercase lib.tables params.searchTerm ≠ []) (hreadable : Readable lib params row)
    (htext : searchableText lib row.item = some text)
    (h : items.length + (rowItems lib params cursor row).length ≤ params.pageSize) :
    pushOccurrences lib params row text (rowRanges lib params cursor row text items) items =
      .ok (items ++ rowItems lib params cursor row, none) := by
  rw [rowItems, rowOccurrences_of_some htext, ← List.map_drop] at h ⊢
  rw [List.length_map] at h
  rw [rowRanges_eq hne, List.take_of_length_le (by omega), pushOccurrences_fits _ _ h]
  intro range hrange
  obtain ⟨place, hplace, rfl⟩ := List.mem_map.1 (List.mem_of_mem_drop hrange)
  exact hreadable text htext place hplace

theorem pushRow_full
    (hne : toLowercase lib.tables params.searchTerm ≠ []) (hreadable : Readable lib params row)
    (htext : searchableText lib row.item = some text) (hle : items.length ≤ params.pageSize)
    (h : params.pageSize < items.length + (rowItems lib params cursor row).length) :
    pushOccurrences lib params row text (rowRanges lib params cursor row text items) items =
      .ok (items ++ (rowItems lib params cursor row).take (params.pageSize - items.length), some
        ⟨params.threadId, params.searchTerm, row.rolloutOrdinal,
          firstOccurrenceIndex cursor row + (params.pageSize - items.length)⟩) := by
  rw [rowItems, rowOccurrences_of_some htext, ← List.map_drop] at h ⊢
  rw [List.length_map] at h
  have hlength : (((((found lib params.searchTerm text).map (rangeAt lib params.searchTerm text)).drop
      (firstOccurrenceIndex cursor row)).take (params.pageSize + 1 - items.length))).length =
        params.pageSize + 1 - items.length := by
    rw [List.length_take]
    omega
  rw [rowRanges_eq hne, @pushOccurrences_full lib params row text _ (shown lib params row text) ?_ _ items hle (by omega),
    ← List.map_take, List.take_take, Nat.min_eq_left (by omega), List.map_take]
  intro range hrange
  obtain ⟨place, hplace, rfl⟩ := List.mem_map.1 (List.mem_of_mem_drop (List.mem_of_mem_take hrange))
  exact hreadable text htext place hplace

theorem searchRows_fits {rows}
    (hne : toLowercase lib.tables params.searchTerm ≠ []) (hreadable : ∀ row ∈ rows, Readable lib params row)
    (h : items.length + (rows.flatMap (rowItems lib params cursor)).length ≤ params.pageSize) :
    searchRows lib params cursor rows items = .ok (items ++ rows.flatMap (rowItems lib params cursor), none) := by
  induction rows generalizing items with
  | nil => rw [searchRows, List.flatMap_nil, List.append_nil]
  | cons row rows ih =>
    have hrest : ∀ row ∈ rows, Readable lib params row := fun r hr => hreadable r (List.mem_cons_of_mem _ hr)
    rw [List.flatMap_cons, List.length_append] at h
    rw [searchRows]
    split
    next hnone =>
      rw [ih hrest (by omega), List.flatMap_cons, rowItems_of_none hnone cursor, List.nil_append]
    next text htext =>
      rw [pushRow_fits hne (hreadable row (List.mem_cons_self ..)) htext (by omega)]
      have := @ih (items ++ rowItems lib params cursor row) hrest (by rw [List.length_append]; omega)
      rw [List.flatMap_cons, ← List.append_assoc]
      exact this

/-- A page that ends before all is shown: its cursor names the next match. -/
theorem searchRows_full {cursor : Option SearchCursor} {rows : List CandidateRow} {items : List StoredThreadOccurrence}
    (hne : toLowercase lib.tables params.searchTerm ≠ []) (hreadable : ∀ row ∈ rows, Readable lib params row)
    (hle : items.length ≤ params.pageSize)
    (h : params.pageSize < items.length + (rows.flatMap (rowItems lib params cursor)).length) :
    ∃ earlier row later index, rows = earlier ++ row :: later ∧ index < (rowOccurrences lib params row).length ∧
      searchRows lib params cursor rows items =
        .ok (items ++ (rows.flatMap (rowItems lib params cursor)).take (params.pageSize - items.length),
          some ⟨params.threadId, params.searchTerm, row.rolloutOrdinal, index⟩) ∧
      (rows.flatMap (rowItems lib params cursor)).drop (params.pageSize - items.length) =
        (rowOccurrences lib params row).drop index ++ later.flatMap (rowItems lib params cursor) := by
  induction rows generalizing items with
  | nil =>
    rw [List.flatMap_nil, List.length_nil] at h
    omega
  | cons row rows ih =>
    have hrest : ∀ row ∈ rows, Readable lib params row := fun r hr => hreadable r (List.mem_cons_of_mem _ hr)
    rw [List.flatMap_cons, List.length_append] at h
    rw [searchRows, List.flatMap_cons]
    by_cases hfits : items.length + (rowItems lib params cursor row).length ≤ params.pageSize
    · -- the page goes on with the next row
      obtain ⟨earlier, row', later, index, rfl, hindex, hsearch, hdrop⟩ :=
        @ih (items ++ rowItems lib params cursor row) hrest (by rw [List.length_append]; omega)
          (by rw [List.length_append]; omega)
      rw [List.length_append, Nat.sub_add_eq] at hsearch hdrop
      refine ⟨row :: earlier, row', later, index, rfl, hindex, ?_, ?_⟩
      · rw [List.take_append, List.take_of_length_le (by omega), ← List.append_assoc]
        split
        next hnone =>
          rw [rowItems_of_none hnone cursor, List.append_nil] at hsearch ⊢
          exact hsearch
        next text htext =>
          rw [pushRow_fits hne (hreadable row (List.mem_cons_self ..)) htext hfits]
          exact hsearch
      · rw [List.drop_append, List.drop_of_length_le (by omega), List.nil_append]
        exact hdrop
    · cases htext : searchableText lib row.item with
      | none =>
        rw [rowItems_of_none htext cursor, List.length_nil] at hfits
        omega
      | some text =>
        refine ⟨[], row, rows, firstOccurrenceIndex cursor row + (params.pageSize - items.length), rfl, ?_, ?_, ?_⟩
        · rw [rowItems, List.length_drop] at hfits
          omega
        · simp only [pushRow_full hne (hreadable row (List.mem_cons_self ..)) htext hle (Nat.lt_of_not_le hfits)]
          rw [List.take_append_of_le_length (by omega)]
          rfl
        · rw [List.drop_append_of_le_length (by omega), rowItems, List.drop_drop]

end

/-! ## The rows of a page -/

variable {db : HistoryDb} {row : CandidateRow}

theorem selectRows_pairwise (h : ((selectRows db 0).map CandidateRow.rolloutOrdinal).Nodup) :
    (selectRows db 0).Pairwise fun a b => a.rolloutOrdinal < b.rolloutOrdinal :=
  pairwise_orderBy (((orderBy_perm _).map _).nodup_iff.1 h)

theorem mem_userRows (h : row ∈ userRows db) :
    ∃ item ∈ db.items, isUserMessage item.item = true ∧ row.rolloutOrdinal = item.rolloutOrdinal := by
  obtain ⟨item, hitem, hrow⟩ := List.mem_flatMap.1 h
  obtain ⟨turn, -, rfl⟩ := List.mem_map.1 hrow
  exact ⟨item, List.mem_of_mem_filter hitem, (List.mem_filter.1 hitem).2, rfl⟩

theorem mem_finalRows (h : row ∈ finalRows db) :
    ∃ turn ∈ db.turns, ∃ item ∈ db.items, item.turnId = turn.turnId ∧ some item.itemId = turn.finalAgentItemId ∧
      row.rolloutOrdinal = item.rolloutOrdinal := by
  obtain ⟨turn, hturn, hrow⟩ := List.mem_flatMap.1 h
  obtain ⟨item, hitem, rfl⟩ := List.mem_map.1 hrow
  obtain ⟨hitem, hfinal⟩ := List.mem_filter.1 hitem
  have hfinal := of_decide_eq_true hfinal
  exact ⟨turn, hturn, item, hitem, hfinal.1, hfinal.2, rfl⟩

/-- The ordinals that a query selects are distinct by the keys of the tables, as no user message is a final
answer. -/
theorem nodup_selectRows (hturns : (db.turns.map TurnRow.turnId).Nodup)
    (hitems : (db.items.map ItemRow.rolloutOrdinal).Nodup)
    (hfinal : ∀ turn ∈ db.turns, ∀ item ∈ db.items, item.turnId = turn.turnId → some item.itemId = turn.finalAgentItemId →
      isUserMessage item.item = false) (next : Int) : ((selectRows db next).map CandidateRow.rolloutOrdinal).Nodup := by
  have hitem : ∀ a ∈ db.items, ∀ b ∈ db.items, a.rolloutOrdinal = b.rolloutOrdinal → a = b :=
    fun a ha b hb => List.inj_on_of_nodup_map hitems ha hb
  have huser : (userRows db).Pairwise fun a b => a.rolloutOrdinal ≠ b.rolloutOrdinal := by
    refine List.pairwise_flatMap.2 ⟨fun item _ => ?_, ?_⟩
    · -- an item has one turn at most
      refine List.pairwise_map.2 ((List.Pairwise.filter _ (List.pairwise_map.1 hturns)).imp_of_mem ?_)
      intro a b ha hb hne
      have ha := of_decide_eq_true (List.mem_filter.1 ha).2
      have hb := of_decide_eq_true (List.mem_filter.1 hb).2
      exact absurd (ha.trans hb.symm) hne
    · refine (List.Pairwise.filter _ (List.pairwise_map.1 hitems)).imp ?_
      intro a b hne x hx y hy
      obtain ⟨_, _, rfl⟩ := List.mem_map.1 hx
      obtain ⟨_, _, rfl⟩ := List.mem_map.1 hy
      exact hne
  have hagent : (finalRows db).Pairwise fun a b => a.rolloutOrdinal ≠ b.rolloutOrdinal := by
    refine List.pairwise_flatMap.2 ⟨fun turn _ => ?_, ?_⟩
    · exact List.pairwise_map.2 (List.Pairwise.filter _ (List.pairwise_map.1 hitems))
    · refine (List.pairwise_map.1 hturns).imp ?_
      intro a b hne x hx y hy hxy
      obtain ⟨item, hi, rfl⟩ := List.mem_map.1 hx
      obtain ⟨item', hi', rfl⟩ := List.mem_map.1 hy
      obtain ⟨hi, hturn⟩ := List.mem_filter.1 hi
      obtain ⟨hi', hturn'⟩ := List.mem_filter.1 hi'
      obtain rfl := hitem item hi item' hi' hxy
      exact hne ((of_decide_eq_true hturn).1.symm.trans (of_decide_eq_true hturn').1)
  have hall : ((userRows db ++ finalRows db).map CandidateRow.rolloutOrdinal).Nodup := by
    refine List.pairwise_map.2 (List.pairwise_append.2 ⟨huser, hagent, ?_⟩)
    intro a ha b hb hab
    obtain ⟨item, hi, hmessage, hordinal⟩ := mem_userRows ha
    obtain ⟨turn, hturn, item', hi', hid, hanswer, hordinal'⟩ := mem_finalRows hb
    obtain rfl := hitem item hi item' hi' (by rw [← hordinal, ← hordinal', hab])
    rw [hfinal turn hturn item hi hid hanswer] at hmessage
    cases hmessage
  exact ((orderBy_perm _).map _).nodup_iff.2 (hall.sublist (List.filter_sublist.map _))

theorem selectRows_from {before after}
    (h : ((selectRows db 0).map CandidateRow.rolloutOrdinal).Nodup) (hsplit : selectRows db 0 = before ++ row :: after) :
    selectRows db row.rolloutOrdinal = row :: after := by
  have hall : (userRows db ++ finalRows db).filter (fun row => (0 : Int) ≤ row.rolloutOrdinal) = userRows db ++ finalRows db := by
    simp
  have hordered := selectRows_pairwise h
  have hnodup : ((userRows db ++ finalRows db).map CandidateRow.rolloutOrdinal).Nodup := by
    rw [selectRows, hall] at h
    exact ((orderBy_perm _).map _).nodup_iff.1 h
  have hselect : selectRows db 0 = orderBy CandidateRow.rolloutOrdinal (userRows db ++ finalRows db) := by
    rw [selectRows, hall]
  rw [selectRows, orderBy_filter hnodup, ← hselect, hsplit]
  rw [hsplit] at hordered
  refine Eq.trans ?_ (filter_from hordered)
  simp

/-! ## Following cursors -/

section
variable {lib : Libraries} {store : LocalThreadStore} {threadId : ThreadId} {searchTerm : Text}

/-- The occurrences of a row, which depend on neither the page size nor the cursor. -/
def occurrencesOf (lib : Libraries) (threadId : ThreadId) (searchTerm : Text) (row : CandidateRow) :
    List StoredThreadOccurrence :=
  rowOccurrences lib { threadId, searchTerm, cursor := none, pageSize := 0 } row

/-- What a cursor stands for. -/
def LeftOf (lib : Libraries) (threadId : ThreadId) (searchTerm : Text) (rows : List CandidateRow) (cursor : Option String)
    (occurrences : List StoredThreadOccurrence) : Prop :=
  (cursor = none ∧ occurrences = rows.flatMap (occurrencesOf lib threadId searchTerm)) ∨
    ∃ before row later index, rows = before ++ row :: later ∧ index < (occurrencesOf lib threadId searchTerm row).length ∧
      cursor = some (lib.searchCursors.toString ⟨threadId, searchTerm, row.rolloutOrdinal, index⟩) ∧
      occurrences =
        (occurrencesOf lib threadId searchTerm row).drop index ++ later.flatMap (occurrencesOf lib threadId searchTerm)

theorem firstOccurrenceIndex_self (row : CandidateRow) (index : Nat) :
    firstOccurrenceIndex (some ⟨threadId, searchTerm, row.rolloutOrdinal, index⟩) row = index := by
  rw [firstOccurrenceIndex, Option.filter_some_pos (by simp)]
  rfl

theorem firstOccurrenceIndex_other {other} (h : row.rolloutOrdinal < other.rolloutOrdinal) (index : Nat) :
    firstOccurrenceIndex (some ⟨threadId, searchTerm, row.rolloutOrdinal, index⟩) other = 0 := by
  rw [firstOccurrenceIndex, Option.filter_some_neg (by simp; omega)]
  rfl

theorem parseCursor_handedOut {cursor rows}
    (hcodec : ∀ cursor, IsCursor lib threadId searchTerm rows cursor →
      lib.searchCursors.fromStr (lib.searchCursors.toString cursor) = some cursor)
    (h : IsCursor lib threadId searchTerm rows cursor) :
    parseCursor lib (some (lib.searchCursors.toString cursor)) threadId searchTerm = .ok (some cursor) := by
  obtain ⟨row, hrow, index, hindex, rfl⟩ := id h
  rw [parseCursor, hcodec _ h]
  simp only [ne_eq, not_true_eq_false, false_or]
  rw [if_neg (by omega)]

theorem exists_pageRows {cursor occurrences}
    (hrows : ((selectRows (store.threadHistoryDb threadId) 0).map CandidateRow.rolloutOrdinal).Nodup)
    (hcodec : ∀ cursor, IsCursor lib threadId searchTerm (selectRows (store.threadHistoryDb threadId) 0) cursor →
      lib.searchCursors.fromStr (lib.searchCursors.toString cursor) = some cursor)
    (h : LeftOf lib threadId searchTerm (selectRows (store.threadHistoryDb threadId) 0) cursor occurrences) :
    ∃ parsed before tail, parseCursor lib cursor threadId searchTerm = .ok parsed ∧
      selectRows (store.threadHistoryDb threadId) 0 = before ++ tail ∧
      selectRows (store.threadHistoryDb threadId) ((parsed.map (·.nextRolloutOrdinal)).getD 0) = tail ∧
      ∀ pageSize, tail.flatMap (rowItems lib ⟨threadId, searchTerm, cursor, pageSize⟩ parsed) = occurrences ∧
        ∀ row ∈ tail.tail, rowItems lib ⟨threadId, searchTerm, cursor, pageSize⟩ parsed row =
          occurrencesOf lib threadId searchTerm row := by
  rcases h with ⟨rfl, rfl⟩ | ⟨before, row, later, index, hsplit, hindex, rfl, rfl⟩
  · exact ⟨none, [], _, rfl, rfl, rfl, fun pageSize => ⟨rfl, fun row _ => rfl⟩⟩
  · have hcursor : IsCursor lib threadId searchTerm (selectRows (store.threadHistoryDb threadId) 0)
        ⟨threadId, searchTerm, row.rolloutOrdinal, index⟩ := by
      rw [occurrencesOf, rowOccurrences, List.length_map] at hindex
      exact ⟨row, by rw [hsplit]; simp, index, hindex, rfl⟩
    have hordered := selectRows_pairwise hrows
    rw [hsplit] at hordered
    have hlater : ∀ other ∈ later, row.rolloutOrdinal < other.rolloutOrdinal :=
      fun other hother => List.rel_of_pairwise_cons (List.pairwise_append.1 hordered).2.1 hother
    refine ⟨_, before, row :: later, parseCursor_handedOut hcodec hcursor, hsplit, selectRows_from hrows hsplit,
      fun pageSize => ?_⟩
    have hothers : ∀ other ∈ later, rowItems lib
        ⟨threadId, searchTerm, some (lib.searchCursors.toString ⟨threadId, searchTerm, row.rolloutOrdinal, index⟩), pageSize⟩
        (some ⟨threadId, searchTerm, row.rolloutOrdinal, index⟩) other = occurrencesOf lib threadId searchTerm other := by
      intro other hother
      rw [rowItems, firstOccurrenceIndex_other (hlater other hother)]
      rfl
    refine ⟨?_, hothers⟩
    rw [List.flatMap_cons, List.flatMap_congr hothers, rowItems, firstOccurrenceIndex_self]
    rfl

theorem fetchPage_eq {cursor parsed} {pageSize : Nat} (hterm : Text.trim searchTerm ≠ [])
    (hsize : 0 < pageSize) (hthread : validateThreadForPaginatedReads store threadId true "thread/searchOccurrences" = .ok ())
    (hparse : parseCursor lib cursor threadId searchTerm = .ok parsed) :
    fetchPage lib store threadId searchTerm pageSize cursor =
      (searchRows lib ⟨threadId, searchTerm, cursor, pageSize⟩ parsed
        (selectRows (store.threadHistoryDb threadId) ((parsed.map (·.nextRolloutOrdinal)).getD 0)) []).map fun page =>
          (page.1, page.2.map lib.searchCursors.toString) := by
  rw [fetchPage, searchThreadOccurrences, if_neg hterm, if_neg (show pageSize ≠ 0 by omega)]
  simp only [hthread, hparse, bind, Except.bind]
  cases searchRows lib ⟨threadId, searchTerm, cursor, pageSize⟩ parsed
    (selectRows (store.threadHistoryDb threadId) ((parsed.map (·.nextRolloutOrdinal)).getD 0)) [] with
  | error e => rfl
  | ok page => rfl

/-- Cursors stand for what is left of the matches, whatever the page size. -/
theorem fetchPage_stands {pageSize : Nat} (hterm : Text.trim searchTerm ≠ []) (hsize : 0 < pageSize)
    (hthread : validateThreadForPaginatedReads store threadId true "thread/searchOccurrences" = .ok ())
    (hrows : ((selectRows (store.threadHistoryDb threadId) 0).map CandidateRow.rolloutOrdinal).Nodup)
    (hreadable : ∀ row ∈ selectRows (store.threadHistoryDb threadId) 0, ∀ cursor,
      Readable lib ⟨threadId, searchTerm, cursor, pageSize⟩ row)
    (hcodec : ∀ cursor, IsCursor lib threadId searchTerm (selectRows (store.threadHistoryDb threadId) 0) cursor →
      lib.searchCursors.fromStr (lib.searchCursors.toString cursor) = some cursor) :
    Stands (fetchPage lib store threadId searchTerm pageSize) pageSize
      (LeftOf lib threadId searchTerm (selectRows (store.threadHistoryDb threadId) 0)) where
  last := by
    intro cursor occurrences hleft hle
    obtain ⟨parsed, before, tail, hparse, hsplit, hselect, htail⟩ := exists_pageRows hrows hcodec hleft
    obtain ⟨rfl, -⟩ := htail pageSize
    rw [fetchPage_eq hterm hsize hthread hparse, hselect, searchRows_fits (lowercase_ne_nil hterm)
      (fun row hrow => hreadable row (by rw [hsplit]; exact List.mem_append_right _ hrow) cursor)
      (by rw [List.length_nil, Nat.zero_add]; exact hle)]
    rfl
  more := by
    intro cursor occurrences hleft hlt
    obtain ⟨parsed, before, tail, hparse, hsplit, hselect, htail⟩ := exists_pageRows hrows hcodec hleft
    obtain ⟨rfl, hothers⟩ := htail pageSize
    obtain ⟨earlier, row, later, index, rfl, hindex, hsearch, hdrop⟩ :=
      @searchRows_full lib ⟨threadId, searchTerm, cursor, pageSize⟩ parsed tail [] (lowercase_ne_nil hterm)
        (fun row hrow => hreadable row (by rw [hsplit]; exact List.mem_append_right _ hrow) cursor)
        (Nat.zero_le _) (by rw [List.length_nil, Nat.zero_add]; exact hlt)
    refine ⟨_, ?_, .inr ⟨before ++ earlier, row, later, index, ?_, hindex, rfl, ?_⟩⟩
    · rw [fetchPage_eq hterm hsize hthread hparse, hselect, hsearch]
      rfl
    · rw [hsplit, List.append_assoc]
    · refine hdrop.trans ?_
      congr 1
      apply List.flatMap_congr
      intro other hother
      refine hothers other ?_
      cases earlier with
      | nil => exact hother
      | cons first earlier => exact List.mem_append_right _ (List.mem_cons_of_mem _ hother)

/-- **Searching a thread returns every match once.** The pages add up to one list: row by row the places of the
lower-cased term that do not overlap, found from the left. `hstored` is the bound of SQLite on a value's length. -/
theorem searchThreadOccurrences_pages (hterm : Text.trim searchTerm ≠ [])
    (hthread : validateThreadForPaginatedReads store threadId true "thread/searchOccurrences" = .ok ())
    (hrows : ((selectRows (store.threadHistoryDb threadId) 0).map CandidateRow.rolloutOrdinal).Nodup)
    (hstored : ∀ row ∈ selectRows (store.threadHistoryDb threadId) 0, ∀ text, searchableText lib row.item = some text →
      (encodeUtf16 text).length < 2 ^ 31)
    (hcodec : ∀ cursor, IsCursor lib threadId searchTerm (selectRows (store.threadHistoryDb threadId) 0) cursor →
      lib.searchCursors.fromStr (lib.searchCursors.toString cursor) = some cursor) :
    ∃ occurrences,
      (∀ pageSize fuel, 0 < pageSize → occurrences.length < fuel →
        follow (fetchPage lib store threadId searchTerm pageSize) fuel none = .ok (some occurrences)) ∧
      (∀ pageSize, 0 < pageSize → occurrences.length ≤ pageSize →
        fetchPage lib store threadId searchTerm pageSize none = .ok (occurrences, none)) ∧
      List.Forall₂ (Shows lib threadId searchTerm)
        ((selectRows (store.threadHistoryDb threadId) 0).flatMap (rowMatches lib searchTerm)) occurrences ∧
      ((selectRows (store.threadHistoryDb threadId) 0).Pairwise fun a b => a.rolloutOrdinal < b.rolloutOrdinal) ∧
      ∀ text, LiteralSearch.IsSearch (toLowercase lib.tables searchTerm) (toLowercase lib.tables text)
        (found lib searchTerm text) := by
  have hne : toLowercase lib.tables searchTerm ≠ [] := lowercase_ne_nil hterm
  have hreadable : ∀ pageSize, ∀ row ∈ selectRows (store.threadHistoryDb threadId) 0, ∀ cursor,
      Readable lib ⟨threadId, searchTerm, cursor, pageSize⟩ row :=
    fun pageSize row hrow cursor text htext place hplace => (occurrenceInItem_eq hne (hstored row hrow text htext) hplace).1
  have hleft : LeftOf lib threadId searchTerm (selectRows (store.threadHistoryDb threadId) 0) none
      ((selectRows (store.threadHistoryDb threadId) 0).flatMap (occurrencesOf lib threadId searchTerm)) := .inl ⟨rfl, rfl⟩
  refine ⟨(selectRows (store.threadHistoryDb threadId) 0).flatMap (occurrencesOf lib threadId searchTerm),
    fun pageSize fuel hsize hfuel => ?_, fun pageSize hsize hle => ?_, ?_, selectRows_pairwise hrows,
    fun text => LiteralSearch.occurrences_spec hne _⟩
  · exact follow_eq (fetchPage_stands hterm hsize hthread hrows (hreadable pageSize) hcodec) hsize hleft hfuel
  · exact (fetchPage_stands hterm hsize hthread hrows (hreadable pageSize) hcodec).last none _ hleft hle
  · have hmap : (selectRows (store.threadHistoryDb threadId) 0).flatMap (occurrencesOf lib threadId searchTerm) =
        ((selectRows (store.threadHistoryDb threadId) 0).flatMap (rowMatches lib searchTerm)).map
          (occurrenceOf lib { threadId, searchTerm, cursor := none, pageSize := 0 }) := by
      rw [List.map_flatMap]
      rfl
    rw [hmap, List.forall₂_map_right_iff, List.forall₂_same]
    intro m hm
    obtain ⟨row, hrow, hm⟩ := List.mem_flatMap.1 hm
    rw [rowMatches] at hm
    split at hm
    next => exact absurd hm List.not_mem_nil
    next text htext =>
      obtain ⟨place, hplace, rfl⟩ := List.mem_map.1 hm
      exact (@occurrenceInItem_eq lib ⟨threadId, searchTerm, none, 0⟩ row text _ hne (hstored row hrow text htext) hplace).2

end

/-! ## A letter that becomes two -/

/-- ASCII, and a capital that has a dot even in lower case. -/
def dottedTables : CaseTables where
  charToLowercase c := if c = 'Σ' then ['σ'] else if c = 'İ' then ['i', '\u0307'] else [c.toLower]
  isCased c := c.isAlpha || c == 'Σ' || c == 'σ' || c == 'ς' || c == 'İ'
  isCaseIgnorable c := c == '\'' || c == '.' || c == ':' || c == '\u0307'
  charToLowercase_ne_nil c := by
    split
    · exact List.cons_ne_nil _ _
    · split <;> exact List.cons_ne_nil _ _
  charToLowercase_sigma := rfl

/-- The JSON of a cursor whose texts need no escapes. -/
def dottedCodec : SearchCursorCodec where
  toString := json
  fromStr text := dottedCursors.find? (json · = text)
where
  json (cursor : SearchCursor) : String :=
    "\x7b\"threadId\":\"" ++ cursor.threadId ++ "\",\"searchTerm\":\"" ++ String.ofList cursor.searchTerm ++
      "\",\"nextRolloutOrdinal\":" ++ toString cursor.nextRolloutOrdinal ++ ",\"nextOccurrenceIndex\":" ++
      toString cursor.nextOccurrenceIndex ++ "\x7d"
  dottedCursors : List SearchCursor :=
    [⟨Paging.forkId, ['I'], 2, 0⟩, ⟨Paging.forkId, ['I'], 2, 1⟩, ⟨Paging.forkId, ['I'], 3, 0⟩]

/-- Plain paragraphs. -/
def dottedLibraries : Libraries where
  tables := dottedTables
  parseMarkdown text := if text = [] then [] else [.start, .text text, .end .paragraph]
  searchCursors := dottedCodec
  historyCursors := Paging.forkCodec

def dottedDb : HistoryDb where
  turns := [{
    turnId := "turn", rolloutOrdinal := 1, rolloutByteOffset := 100, rolloutEndOrdinal := some 4, rolloutEndByteOffset := some 500
    status := .completed, error := none, startedAt := some 1, completedAt := some 2, durationMs := some 1000
    firstUserItemId := some "user", finalAgentItemId := some "agent" }]
  items := [
    ⟨"turn", "user", 2, 1000, .userMessage "user" none [.text ['İ', 'i'] []]⟩,
    ⟨"turn", "agent", 3, 2000, .agentMessage "agent" "So do I." (some .finalAnswer) none⟩]

def dottedStore : LocalThreadStore where
  stateDb := some fun _ => .ok (some ⟨none, .paginated⟩)
  threadHistoryDb threadId := if threadId = Paging.forkId then dottedDb else {}

def dottedPlaces : List (String × Nat) :=
  ((selectRows (dottedStore.threadHistoryDb Paging.forkId) 0).flatMap (rowMatches dottedLibraries ['I'])).map
    fun m => (m.row.itemId, m.place)

/-- Three matches, a page each and all on one. -/
theorem searchThreadOccurrences_pages_dotted :
    dottedPlaces = [("user", 0), ("user", 2), ("agent", 6)] ∧
      ∃ occurrences, follow (fetchPage dottedLibraries dottedStore Paging.forkId ['I'] 1) 4 none = .ok (some occurrences) ∧
        fetchPage dottedLibraries dottedStore Paging.forkId ['I'] 3 none = .ok (occurrences, none) := by
  have hplaces : dottedPlaces = [("user", 0), ("user", 2), ("agent", 6)] := by decide +kernel
  refine ⟨hplaces, ?_⟩
  have hstored : ∀ row ∈ selectRows (dottedStore.threadHistoryDb Paging.forkId) 0, ∀ text,
      searchableText dottedLibraries row.item = some text → (encodeUtf16 text).length < 2 ^ 31 := by
    have hall : ∀ row ∈ selectRows (dottedStore.threadHistoryDb Paging.forkId) 0,
        ((searchableText dottedLibraries row.item).all fun text => decide ((encodeUtf16 text).length < 2 ^ 31)) = true := by
      decide +kernel
    intro row hrow text htext
    have := hall row hrow
    rw [htext] at this
    exact of_decide_eq_true this
  have hcodec : ∀ cursor,
      IsCursor dottedLibraries Paging.forkId ['I'] (selectRows (dottedStore.threadHistoryDb Paging.forkId) 0) cursor →
        dottedCodec.fromStr (dottedCodec.toString cursor) = some cursor := by
    have hall : ∀ row ∈ selectRows (dottedStore.threadHistoryDb Paging.forkId) 0,
        ∀ index ∈ List.range (rowMatches dottedLibraries ['I'] row).length,
          dottedCodec.fromStr (dottedCodec.toString ⟨Paging.forkId, ['I'], row.rolloutOrdinal, index⟩) =
            some ⟨Paging.forkId, ['I'], row.rolloutOrdinal, index⟩ := by decide +kernel
    rintro cursor ⟨row, hrow, index, hindex, rfl⟩
    exact hall row hrow index (List.mem_range.2 hindex)
  obtain ⟨occurrences, hpages, hone, hshows, -, -⟩ :=
    @searchThreadOccurrences_pages dottedLibraries dottedStore Paging.forkId ['I'] (by decide +kernel) rfl
      (nodup_selectRows (by decide +kernel) (by decide +kernel) (by decide +kernel) 0) hstored hcodec
  have hlength : occurrences.length = 3 := by
    have hthree := congrArg List.length hplaces
    exact hshows.length_eq.symm.trans hthree
  exact ⟨occurrences, hpages 1 4 (by decide) (by omega), hone 3 (by decide) (by omega)⟩

end Codex.Search
