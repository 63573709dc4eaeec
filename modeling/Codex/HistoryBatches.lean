/-
Reading the message history page by page. On a file of complete rows both scans retain the
page of the rows up to the offset (`forwardRows_eq`, `BackwardScan.blocks_eq`), whatever
buffers the reader gets and however the blocks fall. A cursor says where the next page
ends and, as a byte position, where its last row does; rows appended since leave both as
they are (`CursorAt.append`).
-/
import Codex.Lib.Results
import Codex.MessageHistory
import Mathlib.Data.List.Basic

namespace Codex.MessageHistory

/-! ## Rows -/

/-- A complete line. -/
structure Row where
  content : Bytes
  complete : newline ∉ content

def Row.bytes (row : Row) : Bytes := row.content ++ [newline]

def fileBytes (rows : List Row) : Bytes := rows.flatMap Row.bytes

/-- The bytes of a row, where they are buffered. -/
def buffered (bytes : Bytes) : Option Bytes := if bytes.length ≤ maxBatchBytes then some bytes else none

def rawRow (offset bytePosition : Nat) (row : Row) : RawHistoryBatchEntry :=
  { offset, bytePosition, byteLen := row.bytes.length, bytes := buffered row.bytes }

def rawRows (offset bytePosition : Nat) : List Row → List RawHistoryBatchEntry
  | [] => []
  | row :: rows => rawRow offset bytePosition row :: rawRows (offset + 1) (bytePosition + row.bytes.length) rows

/-- Buffers that a reader fills one after the other with the rest of the file. -/
structure Splits (reader : List Bytes) (rest : Bytes) : Prop where
  flatten : reader.flatten = rest
  filled : ∀ buffer ∈ reader, buffer ≠ []

theorem fileBytes_append (rows more : List Row) : fileBytes (rows ++ more) = fileBytes rows ++ fileBytes more :=
  List.flatMap_append

variable (row : Row) {part : Bytes} {reader : List Bytes} {rows : List Row} {endOffset : Nat}
  {raw : RawHistoryBatchEntry}

theorem fileBytes_singleton : fileBytes [row] = row.bytes := List.flatMap_singleton ..

theorem length_bytes : row.bytes.length = row.content.length + 1 := List.length_append

theorem rawRows_append (offset bytePosition : Nat) (rows more : List Row) :
    rawRows offset bytePosition (rows ++ more) =
      rawRows offset bytePosition rows ++ rawRows (offset + rows.length) (bytePosition + (fileBytes rows).length) more := by
  induction rows generalizing offset bytePosition with
  | nil => rfl
  | cons row rows ih =>
    have hlength : (fileBytes (row :: rows)).length = row.bytes.length + (fileBytes rows).length := List.length_append
    rw [List.cons_append, rawRows, rawRows, ih, hlength, List.length_cons, List.cons_append,
      show offset + 1 + rows.length = offset + (rows.length + 1) by omega, Nat.add_assoc bytePosition]

theorem length_rawRows (offset bytePosition : Nat) (rows : List Row) :
    (rawRows offset bytePosition rows).length = rows.length := by
  induction rows generalizing offset bytePosition with
  | nil => rfl
  | cons row rows ih => rw [rawRows, List.length_cons, ih, List.length_cons]

theorem rawRows_concat (rows : List Row) (row : Row) :
    (rawRows 0 0 (rows ++ [row])).reverse =
      rawRow rows.length (fileBytes rows).length row :: (rawRows 0 0 rows).reverse := by
  rw [rawRows_append, List.reverse_append, Nat.zero_add, Nat.zero_add]
  rfl

/-! ## The forward scan -/

theorem retainRow_eq : retainRow = NewestPage.push RawHistoryBatchEntry.byteLen maxBatchRows maxBatchBytes := rfl

theorem buffered_append (bytes more : Bytes) :
    ((buffered bytes).bind fun b => if (bytes ++ more).length ≤ maxBatchBytes then some (b ++ more) else none) =
      buffered (bytes ++ more) := by
  unfold buffered
  by_cases h : bytes.length ≤ maxBatchBytes
  · rw [if_pos h]
    rfl
  · rw [if_neg h, if_neg]
    · rfl
    · rw [List.length_append]
      omega

theorem findIdx?_newline {buffer : Bytes} (h : newline ∉ buffer) : buffer.findIdx? (· == newline) = none := by
  rw [List.findIdx?_eq_none_iff]
  intro byte hbyte
  exact beq_eq_false_iff_ne.2 fun heq => h (heq ▸ hbyte)

theorem readRow_of_not_mem {buffer : Bytes} (h : newline ∉ buffer) (done : Bytes) (reader : List Bytes) :
    readRow done.length (buffered done) (buffer :: reader) =
      readRow (done ++ buffer).length (buffered (done ++ buffer)) reader := by
  rw [readRow, findIdx?_newline h, ← buffered_append, List.length_append, List.take_length]
  rfl

theorem readRow_of_mem (h : newline ∉ part) (after done : Bytes) (reader : List Bytes) :
    readRow done.length (buffered done) ((part ++ newline :: after) :: reader) =
      { byteLen := (done ++ (part ++ [newline])).length
        bytes := buffered (done ++ (part ++ [newline]))
        reader := if after.isEmpty then reader else after :: reader } := by
  have hindex : (part ++ newline :: after).findIdx? (· == newline) = some part.length := by
    rw [List.findIdx?_append, findIdx?_newline h, List.findIdx?_cons]
    simp
  have htake : (part ++ newline :: after).take (part.length + 1) = part ++ [newline] := by
    rw [List.take_length_add_append]
    rfl
  have hdrop : (part ++ newline :: after).drop (part.length + 1) = after := by
    rw [List.drop_length_add_append]
    rfl
  rw [readRow, hindex, ← buffered_append, List.length_append]
  rw [htake, consume, hdrop, List.length_append, show (part ++ [newline]).length = part.length + 1 from List.length_append]
  rfl

/-- **One row**, whatever buffers it spans. -/
theorem readRow_eq {rest} (hpart : newline ∉ part)
    (h : Splits reader (part ++ newline :: rest)) (done : Bytes) :
    ∃ reader', Splits reader' rest ∧ readRow done.length (buffered done) reader =
      { byteLen := (done ++ (part ++ [newline])).length, bytes := buffered (done ++ (part ++ [newline]))
        reader := reader' } := by
  induction reader generalizing part done with
  | nil => exact absurd h.flatten (by simp)
  | cons buffer reader ih =>
    obtain ⟨hflatten, hfilled⟩ := h
    obtain ⟨hbuffer, hreader⟩ := List.forall_mem_cons.1 hfilled
    -- The buffer ends before the newline, or it holds it.
    have hnext {part' : Bytes} (hsplit : part = buffer ++ part') (htail : reader.flatten = part' ++ newline :: rest) :
        ∃ reader', Splits reader' rest ∧ readRow done.length (buffered done) (buffer :: reader) =
          { byteLen := (done ++ (part ++ [newline])).length, bytes := buffered (done ++ (part ++ [newline]))
            reader := reader' } := by
      subst hsplit
      rw [List.mem_append, not_or] at hpart
      obtain ⟨reader', hsplits, hread⟩ := ih hpart.2 ⟨htail, hreader⟩ (done ++ buffer)
      refine ⟨reader', hsplits, ?_⟩
      rw [readRow_of_not_mem hpart.1, hread, List.append_assoc, List.append_assoc]
    rcases List.append_eq_append_iff.1 hflatten with ⟨part', hsplit, htail⟩ | ⟨tail, rfl, htail⟩
    · exact hnext hsplit htail
    · cases tail with
      | nil =>
        have hnil : part = (part ++ []) ++ [] := by rw [List.append_nil, List.append_nil]
        exact hnext hnil htail.symm
      | cons byte after =>
        obtain ⟨rfl, rfl⟩ := List.cons.inj htail
        refine ⟨_, ?_, readRow_of_mem hpart after done reader⟩
        cases after with
        | nil => exact ⟨rfl, hreader⟩
        | cons byte after => exact ⟨rfl, List.forall_mem_cons.2 ⟨List.cons_ne_nil byte after, hreader⟩⟩

/-- **What the forward scan retains** of a file of complete rows. -/
theorem forwardRows_foldl (count : Nat) (h : Splits reader (fileBytes rows))
    (offset bytePosition : Nat) (suffix : List RawHistoryBatchEntry × Nat) :
    forwardRows offset bytePosition suffix count reader =
      ((rawRows offset bytePosition (rows.take count)).foldl retainRow suffix).1 := by
  induction count generalizing reader rows offset bytePosition suffix with
  | zero => rfl
  | succ count ih =>
    cases rows with
    | nil =>
      have hreader : reader = [] := by
        cases reader with
        | nil => rfl
        | cons buffer reader =>
          obtain ⟨hbuffer, -⟩ := List.forall_mem_cons.1 h.filled
          exact absurd (List.append_eq_nil_iff.1 h.flatten).1 hbuffer
      subst hreader
      rfl
    | cons row rows =>
      have hrow : Splits reader (row.content ++ newline :: fileBytes rows) := by
        refine ⟨h.flatten.trans ?_, h.filled⟩
        show (row.content ++ [newline]) ++ fileBytes rows = _
        rw [List.append_assoc]
        rfl
      obtain ⟨reader', hsplits, hread⟩ := readRow_eq row.complete hrow []
      replace hread : readRow 0 (some []) reader =
        { byteLen := row.bytes.length, bytes := buffered row.bytes, reader := reader' } := hread
      rw [forwardRows, hread]
      rw [if_neg (by rw [length_bytes]; exact Nat.succ_ne_zero _), ih hsplits]
      rfl

/-- The page that ends with the last of the rows. -/
def retained (rows : List Row) : List RawHistoryBatchEntry :=
  NewestPage.page RawHistoryBatchEntry.byteLen maxBatchRows maxBatchBytes (rawRows 0 0 rows).reverse

theorem forwardRows_eq (h : Splits reader (fileBytes rows)) (endOffset : Nat) :
    (forwardRows 0 0 ([], 0) (endOffset + 1) reader).reverse = retained (rows.take (endOffset + 1)) := by
  rw [forwardRows_foldl _ h, retainRow_eq, NewestPage.foldl_push]
  exact List.reverse_reverse _

/-! ## The backward scan -/

namespace BackwardScan

/-- The scan with the end of a row read. -/
def within (entries : List RawHistoryBatchEntry) (entriesBytes offset : Nat) (row : Bytes) : BackwardScan :=
  { entries, entriesBytes, reversedRow := (buffered row).map List.reverse, rowByteLen := row.length, offset }

variable {entries : List RawHistoryBatchEntry} {entriesBytes : Nat}

theorem buffered_cons (byte : UInt8) (row : Bytes) :
    (((buffered row).map List.reverse).bind fun bytes =>
        if row.length + 1 ≤ maxBatchBytes then some (bytes ++ [byte]) else none) =
      (buffered (byte :: row)).map List.reverse := by
  unfold buffered
  rw [List.length_cons]
  by_cases hlen : row.length ≤ maxBatchBytes
  · rw [if_pos hlen, Option.map_some, Option.bind_some]
    split
    · rw [← List.reverse_cons]
      rfl
    · rfl
  · rw [if_neg hlen, if_neg (by omega)]
    rfl

theorem step_within {byte row} (h : byte ≠ newline ∨ row = []) (offset position : Nat) :
    (within entries entriesBytes offset row).step (byte, position) = .ok (within entries entriesBytes offset (byte :: row)) := by
  have hplain : ¬ (byte = newline ∧ 0 < row.length) := by
    rintro ⟨hbyte, hrow⟩
    rcases h with h | rfl
    · exact h hbyte
    · exact absurd hrow (Nat.lt_irrefl 0)
  refine (if_neg hplain).trans ?_
  rw [within, within, ← buffered_cons]
  rfl

theorem step_newline {row} (hrow : row ≠ []) (offset position : Nat) :
    (within entries entriesBytes offset row).step (newline, position) =
      let retained := retainNewestRow entries entriesBytes
        { offset, bytePosition := position + 1, byteLen := row.length, bytes := buffered row }
      if retained.2 = false then .error retained.1.1
      else if offset = 0 then .error retained.1.1
      else .ok (within retained.1.1 retained.1.2 (offset - 1) [newline]) := by
  have hreverse : ((buffered row).map List.reverse).map List.reverse = buffered row := by
    rw [Option.map_map, List.reverse_involutive.comp_self, Option.map_id]
    rfl
  refine (if_pos ⟨rfl, List.length_pos_iff.2 hrow⟩).trans ?_
  simp only [within, hreverse]
  rfl

theorem foldlM_part (hpart : newline ∉ part) (offset position : Nat) (row : Bytes) :
    (part.zipIdx position).reverse.foldlM step (within entries entriesBytes offset row) =
      .ok (within entries entriesBytes offset (part ++ row)) := by
  induction part generalizing position with
  | nil => rfl
  | cons byte part ih =>
    rw [List.mem_cons, not_or] at hpart
    rw [List.zipIdx_cons, List.reverse_cons, List.foldlM_append, ih hpart.2]
    show [(byte, position)].foldlM step (within entries entriesBytes offset (part ++ row)) = _
    rw [List.foldlM_cons, step_within (.inl (Ne.symm hpart.1))]
    rfl

theorem zipIdx_row (position : Nat) : (row.bytes.zipIdx position).reverse =
      (newline, position + row.content.length) :: (row.content.zipIdx position).reverse := by
  rw [Row.bytes, List.zipIdx_append, List.reverse_append]
  rfl

theorem retainNewestRow_last (entries : List RawHistoryBatchEntry) (entriesBytes : Nat) (raw : RawHistoryBatchEntry) :
    (retainNewestRow entries entriesBytes raw).1.1 =
      NewestPage.collect RawHistoryBatchEntry.byteLen maxBatchRows maxBatchBytes entries entriesBytes [raw] := by
  unfold retainNewestRow NewestPage.collect
  split
  · rfl
  · split <;> rfl

/-- The entries that the scan ends with, early or at the start of the file. -/
def result : Except (List RawHistoryBatchEntry) BackwardScan → List RawHistoryBatchEntry
  | .error entries => entries
  | .ok s => s.finish

/-- **What the backward scan collects** after a row of that many, at the start of which it is. -/
theorem result_foldlM (rows : List Row) (row : Row) (entries : List RawHistoryBatchEntry) (entriesBytes : Nat) :
    result (((fileBytes rows).zipIdx.reverse).foldlM step (within entries entriesBytes rows.length row.bytes)) =
      NewestPage.collect RawHistoryBatchEntry.byteLen maxBatchRows maxBatchBytes entries entriesBytes
        (rawRow rows.length (fileBytes rows).length row :: (rawRows 0 0 rows).reverse) := by
  have hne (row : Row) : row.bytes ≠ [] := List.append_ne_nil_of_right_ne_nil _ (List.cons_ne_nil newline [])
  induction rows using List.reverseRecOn generalizing row entries entriesBytes with
  | nil =>
    have hreverse : ((buffered row.bytes).map List.reverse).map List.reverse = buffered row.bytes := by
      rw [Option.map_map, List.reverse_involutive.comp_self, Option.map_id]
      rfl
    refine (if_pos (List.length_pos_iff.2 (hne row))).trans ?_
    simp only [within, hreverse]
    exact retainNewestRow_last entries entriesBytes (rawRow 0 0 row)
  | append_singleton rows older ih =>
    have hposition : (fileBytes (rows ++ [older])).length = (fileBytes rows).length + older.content.length + 1 := by
      rw [fileBytes_append, fileBytes_singleton, List.length_append, length_bytes]
      rfl
    have hbytes : (fileBytes (rows ++ [older])).zipIdx.reverse =
        (newline, (fileBytes rows).length + older.content.length) ::
          ((older.content.zipIdx (fileBytes rows).length).reverse ++ (fileBytes rows).zipIdx.reverse) := by
      rw [fileBytes_append, fileBytes_singleton, List.zipIdx_append, List.reverse_append, Nat.zero_add, zipIdx_row,
        List.cons_append]
    rw [hbytes, List.foldlM_cons, step_newline (hne row), List.length_append, List.length_singleton, rawRows_concat]
    have hraw : rawRow (rows.length + 1) (fileBytes (rows ++ [older])).length row =
        { offset := rows.length + 1, bytePosition := (fileBytes rows).length + older.content.length + 1,
          byteLen := row.bytes.length, bytes := buffered row.bytes } := by
      rw [hposition]
      rfl
    rw [← hraw, NewestPage.collect]
    generalize rawRow (rows.length + 1) (fileBytes (rows ++ [older])).length row = raw
    unfold retainNewestRow
    split
    · rfl
    · split
      · rfl
      · show result ((older.content.zipIdx (fileBytes rows).length).reverse ++ (fileBytes rows).zipIdx.reverse |>.foldlM step
          (within (entries ++ [raw]) (entriesBytes + raw.byteLen) rows.length [newline])) = _
        rw [List.foldlM_append, foldlM_part older.complete]
        exact ih older (entries ++ [raw]) (entriesBytes + raw.byteLen)

/-- **What the backward scan retains**, from the end of the rows. -/
theorem result_retained (hrows : rows.length = endOffset + 1) :
    result ((fileBytes rows).zipIdx.reverse.foldlM step { offset := endOffset }) = retained rows := by
  obtain ⟨older, row, rfl⟩ : ∃ older row, rows = older ++ [row] := by
    rcases List.eq_nil_or_concat rows with rfl | ⟨older, row, rfl⟩
    · cases hrows
    · exact ⟨older, row, List.concat_eq_append⟩
  rw [List.length_append, List.length_singleton, Nat.succ_inj] at hrows
  subst hrows
  have hstart : ({ offset := older.length } : BackwardScan) = within [] 0 older.length [] := rfl
  rw [fileBytes_append, fileBytes_singleton, List.zipIdx_append, List.reverse_append, Nat.zero_add, zipIdx_row,
    List.cons_append, List.foldlM_cons, hstart, step_within (.inr rfl), retained, rawRows_concat]
  show result (((row.content.zipIdx (fileBytes older).length).reverse ++ (fileBytes older).zipIdx.reverse).foldlM step
    (within [] 0 older.length [newline])) = _
  rw [List.foldlM_append, foldlM_part row.complete, ← NewestPage.collect_eq_page (by decide)]
  exact result_foldlM older row [] 0

theorem blocks_zero (file : Bytes) (s : BackwardScan) : s.blocks file 0 = .ok (.ok s) := by
  rw [blocks, if_pos rfl]

/-- **However the blocks fall**, the scan reads the bytes up to the end, one after the other. -/
theorem blocks_eq {file} (s : BackwardScan) {readEnd : Nat} (h : readEnd ≤ file.length) :
    s.blocks file readEnd = .ok ((file.take readEnd).zipIdx.reverse.foldlM step s) := by
  induction readEnd using Nat.strong_induction_on generalizing s with
  | _ readEnd ih =>
    by_cases h0 : readEnd = 0
    · subst h0
      exact blocks_zero file s
    · have hpositive : 0 < historyReadBufferSize := by decide
      rw [blocks, if_neg h0]
      generalize historyReadBufferSize = size at hpositive
      obtain ⟨readStart, hstart⟩ : ∃ readStart, readEnd - size = readStart := ⟨_, rfl⟩
      have hlt : readStart < readEnd := by omega
      have hle : readStart + (readEnd - readStart) ≤ file.length := by omega
      have hsplit : file.take readEnd = file.take readStart ++ (file.drop readStart).take (readEnd - readStart) := by
        rw [← List.take_add, Nat.add_sub_cancel' hlt.le]
      have hlength : (file.take readStart).length = readStart := List.length_take_of_le (by omega)
      rw [hstart, hsplit, List.zipIdx_append, List.reverse_append, List.foldlM_append, hlength, Nat.zero_add]
      simp only [readExact, if_pos hle]
      show (match List.foldlM step s (((file.drop readStart).take (readEnd - readStart)).zipIdx readStart).reverse with
        | .error entries => Except.ok (Except.error entries)
        | .ok s => s.blocks file readStart) = _
      cases List.foldlM step s (((file.drop readStart).take (readEnd - readStart)).zipIdx readStart).reverse with
      | error entries => rfl
      | ok s' => exact ih readStart hlt s' (by omega)

end BackwardScan

/-! ## Pages -/

section
variable (fromSlice : Bytes → Option HistoryEntry)

def rowEntry (offset : Nat) (row : Row) : HistoryBatchEntry := { offset, entry := tryParseEntry fromSlice row.bytes }

/-- The entries of the rows up to an offset, newest first. -/
def covered (rows : List Row) (endOffset : Nat) : List HistoryBatchEntry :=
  ((rows.take (endOffset + 1)).mapIdx (rowEntry fromSlice)).reverse

/-- The cursor for the rows before the one with the offset. -/
def cursorBefore (revision : HistoryFileRevision) (raw : RawHistoryBatchEntry) : Option HistoryBatchCursor :=
  if raw.offset = 0 then none
  else some
    { endOffset := raw.offset - 1, byteAnchor := revision.modified.map fun _ => { position := raw.bytePosition, revision } }

def batchOf (file : Bytes) (revision : HistoryFileRevision) (entries : List RawHistoryBatchEntry) : HistoryBatch :=
  { entries := entries.map fun raw =>
      { offset := raw.offset, entry := tryParseEntry fromSlice ((file.drop raw.bytePosition).take raw.byteLen) }
    nextOlderCursor := entries.getLast?.bind (cursorBefore revision) }

/-- A row of the file, its bytes buffered or not. -/
structure RawHistoryBatchEntry.InFile (file : Bytes) (raw : RawHistoryBatchEntry) : Prop where
  within : raw.bytePosition + raw.byteLen ≤ file.length
  bytes : raw.bytes = none ∨ raw.bytes = some ((file.drop raw.bytePosition).take raw.byteLen)

variable {fromSlice}

theorem finishMaterializedBatch_eq {file entries} (h : ∀ raw ∈ entries, raw.InFile file)
    (revision : HistoryFileRevision) :
    finishMaterializedBatch fromSlice file entries revision = .ok (batchOf fromSlice file revision entries) := by
  have hmaterialize : entries.mapM (materialize file) =
      .ok (entries.map fun raw => { raw with bytes := some ((file.drop raw.bytePosition).take raw.byteLen) }) := by
    refine Results.mapM_eq_ok.2 (List.forall₂_map_right_iff.2 (List.forall₂_same.2 fun raw hraw => ?_))
    obtain ⟨hwithin, hbytes⟩ := h raw hraw
    unfold materialize
    rcases hbytes with hbytes | hbytes
    · rw [hbytes]
      simp only [readExact, if_pos hwithin]
      rfl
    · rw [hbytes]
      show Except.ok raw = Except.ok _
      rw [← hbytes]
  unfold finishMaterializedBatch
  rw [hmaterialize]
  show finishBatch fromSlice _ revision = _
  refine Results.bind_eq_ok.2 ⟨(batchOf fromSlice file revision entries).entries, ?_, ?_⟩
  · refine Results.mapM_eq_ok.2 (List.forall₂_map_left_iff.2 (List.forall₂_map_right_iff.2 (List.forall₂_same.2 ?_)))
    exact fun raw _ => rfl
  · rw [List.getLast?_map, Option.bind_map]
    rfl

theorem take_drop_fileBytes (before : List Row) (row : Row) (after : List Row) :
    ((fileBytes (before ++ row :: after)).drop (fileBytes before).length).take row.bytes.length = row.bytes := by
  rw [fileBytes_append, List.drop_left]
  exact List.take_left

theorem inFile_rawRow (before : List Row) (row : Row) (after : List Row) :
    (rawRow before.length (fileBytes before).length row).InFile (fileBytes (before ++ row :: after)) where
  within := by
    show (fileBytes before).length + row.bytes.length ≤ _
    have hrow : fileBytes (row :: after) = row.bytes ++ fileBytes after := rfl
    rw [fileBytes_append, List.length_append, hrow, List.length_append]
    omega
  bytes := by
    show buffered row.bytes = none ∨ buffered row.bytes = some _
    rw [buffered]
    split
    · exact .inr (congrArg some (take_drop_fileBytes before row after).symm)
    · exact .inl rfl

/-- A row is its offset's, at the end of those before it. -/
theorem mem_rawRows (h : raw ∈ rawRows 0 0 rows) :
    ∃ before row after, rows = before ++ row :: after ∧ raw = rawRow before.length (fileBytes before).length row := by
  induction rows using List.reverseRecOn with
  | nil => cases h
  | append_singleton rows last ih =>
    rw [← List.mem_reverse, rawRows_concat] at h
    rcases List.mem_cons.1 h with rfl | h
    · exact ⟨rows, last, [], rfl, rfl⟩
    · obtain ⟨before, row, after, rfl, rfl⟩ := ih (List.mem_reverse.1 h)
      exact ⟨before, row, after ++ [last], by rw [List.append_assoc]; rfl, rfl⟩

theorem prefix_of_retained (rows : List Row) : retained rows <+: (rawRows 0 0 rows).reverse := NewestPage.prefix_page _

theorem inFile_of_retained (more : List Row) (h : raw ∈ retained rows) :
    raw.InFile (fileBytes (rows ++ more)) := by
  obtain ⟨before, row, after, rfl, rfl⟩ := mem_rawRows (List.mem_reverse.1 ((prefix_of_retained rows).subset h))
  rw [List.append_assoc]
  exact inFile_rawRow before row (after ++ more)

def pageAt (fromSlice : Bytes → Option HistoryEntry) (rows : List Row) (endOffset : Nat) (revision : HistoryFileRevision) :
    HistoryBatch := batchOf fromSlice (fileBytes rows) revision (retained (rows.take (endOffset + 1)))

theorem scanBatchForward_eq (h : Splits reader (fileBytes rows)) (endOffset : Nat)
    (revision : HistoryFileRevision) :
    scanBatchForward fromSlice (fileBytes rows) reader endOffset revision = .ok (pageAt fromSlice rows endOffset revision) := by
  unfold scanBatchForward
  rw [forwardRows_eq h]
  refine finishMaterializedBatch_eq (fun raw hraw => ?_) revision
  rw [← List.take_append_drop (endOffset + 1) rows]
  exact inFile_of_retained _ hraw

theorem scanBatchBackward_eq (h : endOffset < rows.length) (revision : HistoryFileRevision) :
    scanBatchBackward fromSlice (fileBytes rows) endOffset (fileBytes (rows.take (endOffset + 1))).length revision =
      .ok (pageAt fromSlice rows endOffset revision) := by
  have hfile : fileBytes rows = fileBytes (rows.take (endOffset + 1)) ++ fileBytes (rows.drop (endOffset + 1)) := by
    rw [← fileBytes_append, List.take_append_drop]
  have hend : (fileBytes (rows.take (endOffset + 1))).length ≤ (fileBytes rows).length := by
    rw [hfile, List.length_append]
    exact Nat.le_add_right ..
  have htake : (fileBytes rows).take (fileBytes (rows.take (endOffset + 1))).length = fileBytes (rows.take (endOffset + 1)) := by
    rw [hfile]
    exact List.take_left
  have hresult := BackwardScan.result_retained (List.length_take_of_le h)
  have hin (raw : RawHistoryBatchEntry) (hraw : raw ∈ retained (rows.take (endOffset + 1))) : raw.InFile (fileBytes rows) := by
    rw [← List.take_append_drop (endOffset + 1) rows]
    exact inFile_of_retained _ hraw
  unfold scanBatchBackward
  rw [BackwardScan.blocks_eq _ hend, htake]
  revert hresult
  generalize ((fileBytes (rows.take (endOffset + 1))).zipIdx.reverse.foldlM BackwardScan.step { offset := endOffset }) = ended
  intro hresult
  cases ended with
  | error entries =>
    obtain rfl : entries = retained (rows.take (endOffset + 1)) := hresult
    exact finishMaterializedBatch_eq hin revision
  | ok s =>
    have hfinish : s.finish = retained (rows.take (endOffset + 1)) := hresult
    show finishMaterializedBatch fromSlice (fileBytes rows) s.finish revision = _
    rw [hfinish]
    exact finishMaterializedBatch_eq hin revision

/-! ## What a page covers -/

theorem rawRows_split {offset bytePosition : Nat} {older newer}
    (h : rawRows offset bytePosition rows = older ++ raw :: newer) :
    raw = rawRow (offset + older.length) (bytePosition + (fileBytes (rows.take older.length)).length)
        (rows.getD older.length ⟨[], List.not_mem_nil⟩) ∧ older.length < rows.length := by
  induction older generalizing offset bytePosition rows with
  | nil =>
    cases rows with
    | nil => cases h
    | cons row rows =>
      obtain ⟨rfl, -⟩ := List.cons.inj h
      exact ⟨rfl, Nat.succ_pos _⟩
  | cons first older ih =>
    cases rows with
    | nil => cases h
    | cons row rows =>
      obtain ⟨-, htail⟩ := List.cons.inj h
      obtain ⟨hraw, hlt⟩ := ih htail
      refine ⟨hraw.trans ?_, Nat.succ_lt_succ hlt⟩
      have hbytes : fileBytes (row :: rows.take older.length) = row.bytes ++ fileBytes (rows.take older.length) := rfl
      rw [List.length_cons, List.take_succ_cons, hbytes, List.length_append, List.getD_cons_succ,
        show offset + 1 + older.length = offset + (older.length + 1) by omega, Nat.add_assoc bytePosition]

theorem entries_rawRows (rows more : List Row) :
    (rawRows 0 0 rows).reverse.map (fun raw => ({
        offset := raw.offset
        entry := tryParseEntry fromSlice (((fileBytes (rows ++ more)).drop raw.bytePosition).take raw.byteLen) } :
        HistoryBatchEntry)) = (rows.mapIdx (rowEntry fromSlice)).reverse := by
  induction rows using List.reverseRecOn generalizing more with
  | nil => rfl
  | append_singleton rows row ih =>
    rw [rawRows_concat, List.mapIdx_concat, List.reverse_append, List.map_cons, List.append_assoc, ih]
    congr 1
    congr 2
    exact take_drop_fileBytes rows row more

/-- **What a page covers**: the rows up to its offset from the `n`th on, and its cursor is for those before. -/
theorem pageAt_covers (rows : List Row) (endOffset : Nat) (revision : HistoryFileRevision) :
    ∃ n, (n < (rows.take (endOffset + 1)).length ∨ n = 0 ∧ rows = []) ∧
      covered fromSlice rows endOffset =
        (pageAt fromSlice rows endOffset revision).entries ++ ((rows.take n).mapIdx (rowEntry fromSlice)).reverse ∧
      (pageAt fromSlice rows endOffset revision).nextOlderCursor =
        if n = 0 then none
        else some
          { endOffset := n - 1
            byteAnchor := revision.modified.map fun _ => { position := (fileBytes (rows.take n)).length, revision } } := by
  rcases rows.eq_nil_or_concat with rfl | ⟨initial, final, hrows⟩
  · refine ⟨0, .inr ⟨rfl, rfl⟩, ?_, ?_⟩
    · rw [covered, pageAt, List.take_nil]
      rfl
    · rw [pageAt, List.take_nil]
      rfl
  · have hne : rows.take (endOffset + 1) ≠ [] := by
      rw [hrows, ne_eq, List.take_eq_nil_iff, not_or]
      exact ⟨Nat.succ_ne_zero _, by simp⟩
    obtain ⟨rest, hrest⟩ := prefix_of_retained (rows.take (endOffset + 1))
    have hretained : retained (rows.take (endOffset + 1)) ≠ [] := by
      refine NewestPage.page_ne_nil (by decide) ?_
      rw [ne_eq, List.reverse_eq_nil_iff, ← List.length_eq_zero_iff, length_rawRows, List.length_eq_zero_iff]
      exact hne
    obtain ⟨init, last, hlast⟩ := (List.eq_nil_or_concat _).resolve_left hretained
    have hsplit : rawRows 0 0 (rows.take (endOffset + 1)) = rest.reverse ++ last :: init.reverse := by
      rw [← List.reverse_reverse (rawRows 0 0 _), ← hrest, hlast, List.concat_eq_append]
      simp
    obtain ⟨hraw, hlt⟩ := rawRows_split hsplit
    rw [List.length_reverse] at hraw hlt
    obtain ⟨hle, hlen⟩ : rest.length ≤ endOffset + 1 ∧ rest.length ≤ rows.length := by
      rw [List.length_take] at hlt
      omega
    have hbefore : (rows.take (endOffset + 1)).take rest.length = rows.take rest.length := by
      rw [List.take_take, Nat.min_eq_left hle]
    refine ⟨rest.length, .inl hlt, ?_, ?_⟩
    · have hentries := @entries_rawRows fromSlice (rows.take (endOffset + 1)) (rows.drop (endOffset + 1))
      rw [List.take_append_drop, ← hrest, List.map_append] at hentries
      have hparts : (rows.take (endOffset + 1)).mapIdx (rowEntry fromSlice) =
          (rows.take rest.length).mapIdx (rowEntry fromSlice) ++ ((rows.take (endOffset + 1)).drop rest.length).mapIdx
            (fun i => rowEntry fromSlice (i + (rows.take rest.length).length)) := by
        rw [← List.mapIdx_append, ← hbefore, List.take_append_drop]
      have holder := hentries
      rw [hparts, List.reverse_append] at holder
      obtain ⟨-, holder⟩ := List.append_inj' holder (by
        rw [List.length_map, List.length_reverse, List.length_mapIdx, List.length_take, Nat.min_eq_left hlen])
      rw [covered, ← hentries, holder]
      rfl
    · show (retained (rows.take (endOffset + 1))).getLast?.bind (cursorBefore revision) = _
      rw [hlast, List.concat_eq_append, List.getLast?_append_of_ne_nil _ (List.cons_ne_nil last []), hraw, hbefore, Nat.zero_add,
        Nat.zero_add]
      rfl

def rowLength (rows : List Row) (offset : Nat) : Nat := (rows[offset]?).elim 0 fun row => row.bytes.length

/-- A page keeps both bounds, or it is one row. -/
def PageBounded (rows : List Row) (page : HistoryBatch) : Prop :=
  page.entries.length = 1 ∨
    page.entries.length ≤ maxBatchRows ∧ (page.entries.map fun entry => rowLength rows entry.offset).sum ≤ maxBatchBytes

theorem rowLength_append {offset : Nat} (h : offset < rows.length) (more : List Row) :
    rowLength (rows ++ more) offset = rowLength rows offset := by
  rw [rowLength, rowLength, List.getElem?_append_left h]

theorem pageAt_bounded (rows : List Row) (endOffset : Nat) (revision : HistoryFileRevision) :
    PageBounded rows (pageAt fromSlice rows endOffset revision) := by
  have hbounded := @NewestPage.page_bounded _ RawHistoryBatchEntry.byteLen maxBatchRows maxBatchBytes
    (rawRows 0 0 (rows.take (endOffset + 1))).reverse
  have hlength : (pageAt fromSlice rows endOffset revision).entries.length = (retained (rows.take (endOffset + 1))).length :=
    List.length_map _
  have hsum : (pageAt fromSlice rows endOffset revision).entries.map (fun entry => rowLength rows entry.offset) =
      (retained (rows.take (endOffset + 1))).map RawHistoryBatchEntry.byteLen := by
    refine List.map_map.trans (List.map_congr_left fun raw hraw => ?_)
    obtain ⟨before, row, after, hrows, rfl⟩ := mem_rawRows (List.mem_reverse.1 ((prefix_of_retained _).subset hraw))
    show rowLength rows before.length = row.bytes.length
    rw [← List.take_append_drop (endOffset + 1) rows, hrows, List.append_assoc, rowLength]
    simp
  unfold PageBounded
  rw [hlength, hsum]
  exact hbounded

theorem offset_lt_of_pageAt {rows : List Row} {endOffset : Nat} {revision : HistoryFileRevision} {entry : HistoryBatchEntry}
    (h : entry ∈ (pageAt fromSlice rows endOffset revision).entries) : entry.offset < rows.length := by
  obtain ⟨raw, hraw, rfl⟩ := List.mem_map.1 h
  obtain ⟨before, row, after, hrows, rfl⟩ := mem_rawRows (List.mem_reverse.1 ((prefix_of_retained _).subset hraw))
  have hlength := congrArg List.length hrows
  rw [List.length_append, List.length_cons, List.length_take] at hlength
  show before.length < rows.length
  omega

theorem PageBounded.append {page} (h : PageBounded rows page)
    (hoffsets : ∀ entry ∈ page.entries, entry.offset < rows.length) (more : List Row) : PageBounded (rows ++ more) page := by
  have hsame : page.entries.map (fun entry => rowLength (rows ++ more) entry.offset) =
      page.entries.map fun entry => rowLength rows entry.offset :=
    List.map_congr_left fun entry hentry => rowLength_append (hoffsets entry hentry) more
  unfold PageBounded
  rw [hsame]
  exact h

/-! ## Cursors -/

/-- A cursor's byte position is the end of the last of its rows. -/
def CursorAt (rows : List Row) (cursor : HistoryBatchCursor) : Prop :=
  ∀ anchor ∈ cursor.byteAnchor, cursor.endOffset < rows.length ∧
    anchor.position = (fileBytes (rows.take (cursor.endOffset + 1))).length

/-- **Rows that are appended** leave a cursor where it is. -/
theorem CursorAt.append {cursor} (h : CursorAt rows cursor) (more : List Row) :
    CursorAt (rows ++ more) cursor := by
  intro anchor hanchor
  obtain ⟨hlt, hposition⟩ := h anchor hanchor
  refine ⟨List.length_append ▸ Nat.lt_add_right _ hlt, hposition.trans ?_⟩
  rw [List.take_append_of_le_length hlt]

/-- A lookup in an uncapped history, from its cursor's byte position or not. -/
theorem scanBatch_eq {cursor} (h : CursorAt rows cursor)
    (hreader : Splits reader (fileBytes rows)) (modified logId : Option Nat) :
    scanBatch fromSlice { bytes := fileBytes rows, modified, logId } reader cursor { maxBytes := none } =
      .ok (pageAt fromSlice rows cursor.endOffset { len := (fileBytes rows).length, modified }) := by
  unfold scanBatch
  dsimp only
  split
  next anchor hanchor =>
    obtain ⟨hlt, hposition⟩ := h anchor (Option.mem_filter_iff.1 hanchor).1
    rw [hposition]
    exact scanBatchBackward_eq hlt _
  next =>
    rw [scanBatchForward_eq hreader]
    rfl

/-! ## Runs -/

variable (fromSlice)

/-- A lookup: how the file is found and read then, and the rows appended after it. -/
structure LookupCall where
  modified : Option Nat
  reader : Bytes → List Bytes
  splits : ∀ bytes, Splits (reader bytes) bytes
  tryLock : Nat → TryLock
  acquired : lockShared tryLock 0 maxRetries = .ok ()
  appended : List Row

/-- The rows of the file, the cursor to follow, if any, and the pages so far. -/
structure Reading where
  rows : List Row
  cursor : Option HistoryBatchCursor
  pages : List HistoryBatch

def Reading.start (rows : List Row) (endOffset : Nat) : Reading := { rows, cursor := some (.new endOffset), pages := [] }

def Reading.step (logId : Option Nat) (r : Reading) (call : LookupCall) : Except IoError Reading :=
  match r.cursor with
  | none => .ok { r with rows := r.rows ++ call.appended }
  | some cursor => do
    let file : HistoryFile := { bytes := fileBytes r.rows, modified := call.modified, logId }
    let batch ← lookupBatch fromSlice (some file) (call.reader file.bytes) call.tryLock (logId.getD 0) cursor
      { maxBytes := none }
    return { rows := r.rows ++ call.appended, cursor := batch.nextOlderCursor, pages := r.pages ++ [batch] }

def Reading.run (logId : Option Nat) (calls : List LookupCall) (r : Reading) : Except IoError Reading :=
  calls.foldlM (Reading.step fromSlice logId) r

variable {fromSlice}

/-- What holds of a reading that began at an offset of the rows, after so many lookups. -/
structure Reading.Reads (fromSlice : Bytes → Option HistoryEntry) (rows : List Row) (endOffset calls : Nat) (r : Reading) :
    Prop where
  rows_eq : ∃ appended, r.rows = rows ++ appended
  covers : covered fromSlice rows endOffset = r.pages.flatMap HistoryBatch.entries ++
    r.cursor.elim [] fun cursor => covered fromSlice r.rows cursor.endOffset
  cursorAt : ∀ cursor ∈ r.cursor, CursorAt r.rows cursor
  bounded : ∀ page ∈ r.pages, PageBounded r.rows page ∧ ∀ entry ∈ page.entries, entry.offset < r.rows.length
  started : calls = 0 → r = start rows endOffset
  progress : ∀ cursor ∈ r.cursor, 0 < calls → calls + cursor.endOffset < rows.length

theorem lookupBatch_eq {rows : List Row} {cursor : HistoryBatchCursor} (h : CursorAt rows cursor) (call : LookupCall)
    (logId : Option Nat) :
    lookupBatch fromSlice (some { bytes := fileBytes rows, modified := call.modified, logId })
        (call.reader (fileBytes rows)) call.tryLock (logId.getD 0) cursor { maxBytes := none } =
      .ok (pageAt fromSlice rows cursor.endOffset { len := (fileBytes rows).length, modified := call.modified }) := by
  have hid : ¬ (logId.getD 0 ≠ 0 ∧ logId.getD 0 ≠ logId.getD 0) := fun hid => hid.2 rfl
  unfold lookupBatch
  dsimp only
  rw [if_neg hid, call.acquired]
  exact scanBatch_eq h (call.splits _) call.modified logId

theorem covered_append (h : endOffset < rows.length) (more : List Row) :
    covered fromSlice (rows ++ more) endOffset = covered fromSlice rows endOffset := by
  rw [covered, covered, List.take_append_of_le_length h]

namespace Reading

theorem Reads.ended {rows} {endOffset calls : Nat} {r : Reading} (h : r.Reads fromSlice rows endOffset calls)
    (hcursor : r.cursor = none) (appended : List Row) :
    Reads fromSlice rows endOffset (calls + 1) { r with rows := r.rows ++ appended } := by
  obtain ⟨before, hbefore⟩ := h.rows_eq
  refine ⟨⟨before ++ appended, by rw [hbefore, List.append_assoc]⟩, ?_, ?_, fun page hpage => ?_, nofun, ?_⟩
  · have hcovers := h.covers
    rw [hcursor] at hcovers
    rw [hcursor]
    exact hcovers
  · intro cursor hmem
    rw [show r.cursor = none from hcursor] at hmem
    cases hmem
  · obtain ⟨hbounded, hoffsets⟩ := h.bounded page hpage
    refine ⟨hbounded.append hoffsets appended, fun entry hentry => ?_⟩
    rw [List.length_append]
    exact Nat.lt_add_right _ (hoffsets entry hentry)
  · intro cursor hmem
    rw [show r.cursor = none from hcursor] at hmem
    cases hmem

/-- **One lookup.** -/
theorem Reads.step {calls : Nat} {r : Reading} (h : r.Reads fromSlice rows endOffset calls)
    (logId : Option Nat) (call : LookupCall) :
    ∃ r', Reading.step fromSlice logId r call = .ok r' ∧ Reads fromSlice rows endOffset (calls + 1) r' := by
  obtain ⟨rs, cursor, pages⟩ := r
  cases cursor with
  | none => exact ⟨_, rfl, h.ended rfl call.appended⟩
  | some cursor =>
    have hat : CursorAt rs cursor := h.cursorAt cursor rfl
    obtain ⟨n, hn, hcovers, hnext⟩ := @pageAt_covers fromSlice rs cursor.endOffset
      { len := (fileBytes rs).length, modified := call.modified }
    have hlookup := @lookupBatch_eq fromSlice rs cursor hat call logId
    have hbounded := @pageAt_bounded fromSlice rs cursor.endOffset { len := (fileBytes rs).length, modified := call.modified }
    have hoffsets (entry : HistoryBatchEntry) := @offset_lt_of_pageAt fromSlice rs cursor.endOffset
      { len := (fileBytes rs).length, modified := call.modified } entry
    generalize pageAt fromSlice rs cursor.endOffset { len := (fileBytes rs).length, modified := call.modified } = page
      at hcovers hnext hlookup hbounded hoffsets
    refine ⟨{ rows := rs ++ call.appended, cursor := page.nextOlderCursor, pages := pages ++ [page] }, ?_, ?_⟩
    · unfold Reading.step
      dsimp only
      rw [hlookup]
      rfl
    · have hlength : n ≤ rs.length ∧ (0 < n → n ≤ cursor.endOffset ∧ n < rs.length) := by
        rw [List.length_take] at hn
        omega
      have hcursor (next : HistoryBatchCursor) (hnextCursor : next ∈ page.nextOlderCursor) :
          0 < n ∧ next.endOffset = n - 1 ∧ CursorAt rs next := by
        rw [hnext] at hnextCursor
        split at hnextCursor
        · cases hnextCursor
        next hpos =>
          cases hnextCursor
          refine ⟨by omega, rfl, fun anchor hanchor => ?_⟩
          obtain ⟨time, -, rfl⟩ := Option.map_eq_some_iff.1 hanchor
          refine ⟨by show n - 1 < rs.length; omega, ?_⟩
          rw [Nat.sub_add_cancel (by omega)]
      obtain ⟨before, hbefore⟩ := h.rows_eq
      replace hbefore : rs = rows ++ before := hbefore
      refine ⟨⟨before ++ call.appended, ?_⟩, ?_, ?_, ?_, nofun, ?_⟩
      · show rs ++ call.appended = _
        rw [hbefore, List.append_assoc]
      · have hall : covered fromSlice rows endOffset =
            pages.flatMap HistoryBatch.entries ++ covered fromSlice rs cursor.endOffset := h.covers
        rw [hall, hcovers, ← List.append_assoc]
        rw [List.flatMap_append, List.flatMap_singleton]
        congr 1
        rw [hnext]
        split
        next hzero =>
          rw [hzero]
          rfl
        next hpos =>
          show _ = covered fromSlice (rs ++ call.appended) (n - 1)
          rw [covered_append (by omega), covered, Nat.sub_add_cancel (by omega)]
      · intro next hmem
        exact (hcursor next hmem).2.2.append call.appended
      · have hpages (p : HistoryBatch) (hp : p ∈ pages ++ [page]) :
            PageBounded rs p ∧ ∀ entry ∈ p.entries, entry.offset < rs.length := by
          rcases List.mem_append.1 hp with hp | hp
          · exact h.bounded p hp
          · rw [List.mem_singleton.1 hp]
            exact ⟨hbounded, hoffsets⟩
        intro p hp
        obtain ⟨hp, hlt⟩ := hpages p hp
        refine ⟨hp.append hlt call.appended, fun entry hentry => ?_⟩
        rw [List.length_append]
        exact Nat.lt_add_right _ (hlt entry hentry)
      · intro next hmem _
        obtain ⟨hpos, heq, -⟩ := hcursor next hmem
        -- The first page begins among the rows of the start, each later one before the last.
        rcases Nat.eq_zero_or_pos calls with hzero | hcalls
        · have hrows : rs = rows := congrArg Reading.rows (h.started hzero)
          rw [← hrows]
          omega
        · have hprogress := h.progress cursor rfl hcalls
          omega

/-- **Any number of lookups.** -/
theorem reads_run (rows : List Row) (endOffset : Nat) (logId : Option Nat) (calls : List LookupCall) :
    ∃ r, run fromSlice logId calls (start rows endOffset) = .ok r ∧ Reads fromSlice rows endOffset calls.length r := by
  induction calls using List.reverseRecOn with
  | nil =>
    refine ⟨_, rfl, ⟨[], (List.append_nil rows).symm⟩, rfl, ?_, nofun, fun _ => rfl, fun _ _ h => absurd h (Nat.lt_irrefl 0)⟩
    intro cursor hcursor anchor hanchor
    cases hcursor
    cases hanchor
  | append_singleton calls call ih =>
    obtain ⟨r, hrun, hreads⟩ := ih
    obtain ⟨r', hstep, hreads'⟩ := hreads.step logId call
    refine ⟨r', ?_, ?_⟩
    · unfold run at hrun ⊢
      rw [List.foldlM_append, hrun]
      exact Results.bind_eq_ok.2 ⟨r, rfl, Results.bind_eq_ok.2 ⟨r', hstep, rfl⟩⟩
    · rwa [List.length_append, List.length_singleton]

end Reading

/-- **Reading the history page by page**: the rows up to the offset, newest first, each once, in pages that keep
their bounds or are one row. -/
theorem read_history (fromSlice : Bytes → Option HistoryEntry) (rows : List Row) (endOffset : Nat) (logId : Option Nat)
    (calls : List LookupCall) :
    ∃ r, Reading.run fromSlice logId calls (Reading.start rows endOffset) = .ok r ∧
      r.pages.flatMap HistoryBatch.entries <+: covered fromSlice rows endOffset ∧
      (r.cursor = none → r.pages.flatMap HistoryBatch.entries = covered fromSlice rows endOffset) ∧
      (rows.length < calls.length → r.cursor = none) ∧
      (∀ page ∈ r.pages, PageBounded r.rows page) ∧
      ∀ cursor ∈ r.cursor, ∀ anchor ∈ cursor.byteAnchor, ∀ reader, Splits reader (fileBytes r.rows) → ∀ revision,
        scanBatchBackward fromSlice (fileBytes r.rows) cursor.endOffset anchor.position revision =
          scanBatchForward fromSlice (fileBytes r.rows) reader cursor.endOffset revision := by
  obtain ⟨r, hrun, hreads⟩ := Reading.reads_run rows endOffset logId calls
  refine ⟨r, hrun, ⟨_, hreads.covers.symm⟩, fun hcursor => ?_, fun hlt => ?_, fun page hpage => (hreads.bounded page hpage).1, ?_⟩
  · have hcovers := hreads.covers
    rw [hcursor] at hcovers
    exact ((List.append_nil _).symm.trans hcovers.symm)
  · cases hcursor : r.cursor with
    | none => rfl
    | some cursor =>
      have hprogress := hreads.progress cursor hcursor (by omega)
      omega
  · intro cursor hcursor anchor hanchor reader hreader revision
    obtain ⟨hlt, hposition⟩ := hreads.cursorAt cursor hcursor anchor hanchor
    rw [hposition, scanBatchBackward_eq hlt, scanBatchForward_eq hreader]

end

end Codex.MessageHistory
