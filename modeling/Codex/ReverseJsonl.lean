/-
The scanner that reads the records of a JSONL file from its end, in chunks
(`rollout/src/reverse_jsonl_scanner.rs`).

Between two bytes the scanner stands for a beginning of the file that is still unread
(`rest`). Reading a byte takes the last one off it, whether that needs a new chunk or
not (`readPreviousByte_spec`), so a call takes the last record that is not blank
(`scanNext_spec`), and the calls until the end take all of them (`newAt_yields`).

The reader is a byte string that nobody writes to. What a failed read leaves behind is not
modelled: no read fails (the theorems say so).
-/
import Mathlib.Data.List.Induction
import Mathlib.Tactic.Common

namespace Codex.ReverseJsonl

abbrev Bytes := List UInt8

def readChunkSize : Nat := 8 * 1024

inductive ScanOutcome (T E : Type)
  | parsed (value : T)
  | rejected (error : E)
  deriving DecidableEq

inductive IoError
  | invalidInput (message : String)
  | unexpectedEof
  deriving DecidableEq

structure ReverseJsonlScanner where
  reader : Bytes
  nextChunkEnd : Nat
  chunkPosition : Nat
  chunk : Bytes
  recordReversed : Bytes
  length_chunk : chunk.length = readChunkSize
  position_le : chunkPosition ≤ readChunkSize

/-- `Seek::seek` to the start, then `Read::read_exact`. -/
def readExact (reader : Bytes) (offset size : Nat) : Except IoError { bytes : Bytes // bytes.length = size } :=
  if h : offset + size ≤ reader.length then
    .ok ⟨(reader.drop offset).take size, by rw [List.length_take, List.length_drop]; omega⟩
  else .error .unexpectedEof

def newline : UInt8 := 10

def isAsciiWhitespace (b : UInt8) : Bool := b = 32 || b = 9 || b = 10 || b = 12 || b = 13

namespace ReverseJsonlScanner

def newAt (reader : Bytes) (endByteOffset : Nat) : Except IoError ReverseJsonlScanner :=
  if reader.length < endByteOffset then .error (.invalidInput "reverse JSONL scan end is past the file")
  else .ok {
    reader
    nextChunkEnd := endByteOffset
    chunkPosition := 0
    chunk := List.replicate readChunkSize 0
    recordReversed := []
    length_chunk := List.length_replicate
    position_le := Nat.zero_le _ }

def new (reader : Bytes) : Except IoError ReverseJsonlScanner := newAt reader reader.length

variable (s : ReverseJsonlScanner)

/-- The first half of `read_previous_byte`: the chunk before the last one is read. -/
def readChunk : Except IoError ReverseJsonlScanner :=
  let readSize := min s.nextChunkEnd readChunkSize
  let nextChunkEnd := s.nextChunkEnd - readSize
  match readExact s.reader nextChunkEnd readSize with
  | .error e => .error e
  | .ok bytes => .ok { s with
    nextChunkEnd
    chunk := bytes.1 ++ s.chunk.drop readSize
    chunkPosition := readSize
    length_chunk := by
      rw [List.length_append, bytes.2, List.length_drop, s.length_chunk]
      exact Nat.add_sub_cancel' (Nat.min_le_right _ _)
    position_le := Nat.min_le_right _ _ }

theorem position_lt : s.chunkPosition - 1 < s.chunk.length := by
  have hposition := s.position_le
  rw [s.length_chunk]
  unfold readChunkSize at hposition ⊢
  omega

/-- The second half: the byte before the position. -/
def takeByte : Option UInt8 × ReverseJsonlScanner :=
  (some (s.chunk.get ⟨s.chunkPosition - 1, s.position_lt⟩),
    { s with chunkPosition := s.chunkPosition - 1, position_le := Nat.le_trans (Nat.sub_le _ _) s.position_le })

def readPreviousByte : Except IoError (Option UInt8 × ReverseJsonlScanner) :=
  if s.chunkPosition = 0 then
    if s.nextChunkEnd = 0 then .ok (none, s) else s.readChunk.map takeByte
  else .ok s.takeByte

/-- How many bytes are still to be read. -/
def unread : Nat := s.nextChunkEnd + s.chunkPosition

variable {s}

theorem takeByte_unread (h : s.chunkPosition ≠ 0) : s.takeByte.2.unread < s.unread := by
  simp only [takeByte, unread]
  omega

theorem readChunk_ok {t} (h : s.readChunk = .ok t) (hend : s.nextChunkEnd ≠ 0) :
    t.chunkPosition ≠ 0 ∧ t.nextChunkEnd + t.chunkPosition = s.nextChunkEnd := by
  unfold readChunk at h
  dsimp only at h
  split at h
  next => cases h
  next =>
    cases h
    dsimp only
    unfold readChunkSize
    omega

theorem readPreviousByte_unread {byte t} (h : s.readPreviousByte = .ok (some byte, t)) :
    t.unread < s.unread := by
  have htaken : ∀ {u : ReverseJsonlScanner}, Except.ok u.takeByte = (.ok (some byte, t) : Except IoError _) →
      u.takeByte.2 = t := by
    intro u htake
    rw [Except.ok.inj htake]
  unfold readPreviousByte at h
  split at h
  next hposition =>
    split at h
    next => cases h
    next hend =>
      cases hread : s.readChunk with
      | error e =>
        rw [hread] at h
        cases h
      | ok u =>
        rw [hread] at h
        obtain ⟨hpos, hunread⟩ := readChunk_ok hread hend
        have hlt := takeByte_unread hpos
        rw [htaken h] at hlt
        unfold unread at hlt ⊢
        omega
  next hposition =>
    have hlt := takeByte_unread hposition
    rwa [htaken h] at hlt

variable {T E : Type} (fromSlice : Bytes → Except E T)

/-- What `serde_json::from_slice` says of a record. -/
def outcome (record : Bytes) : ScanOutcome T E :=
  match fromSlice record with
  | .ok value => .parsed value
  | .error error => .rejected error

variable (s)

def finishRecord : Option (ScanOutcome T E) × ReverseJsonlScanner :=
  let record := s.recordReversed.reverse
  (if record.all isAsciiWhitespace then none else some (outcome fromSlice record), { s with recordReversed := [] })

def scanNext (s : ReverseJsonlScanner) : Except IoError (Option (ScanOutcome T E) × ReverseJsonlScanner) :=
  match _h : s.readPreviousByte with
  | .error e => .error e
  | .ok (none, t) => .ok (t.finishRecord fromSlice)
  | .ok (some byte, t) =>
    if byte ≠ newline then scanNext { t with recordReversed := t.recordReversed ++ [byte] }
    else match (t.finishRecord fromSlice).1 with
      | some outcome => .ok (some outcome, (t.finishRecord fromSlice).2)
      | none => scanNext (t.finishRecord fromSlice).2
termination_by s.unread
decreasing_by
  all_goals
    have hlt := readPreviousByte_unread _h
    exact hlt

variable {s} {t : ReverseJsonlScanner}

theorem scanNext_end (h : s.readPreviousByte = .ok (none, t)) : s.scanNext fromSlice = .ok (t.finishRecord fromSlice) := by
  unfold scanNext
  split <;> rename_i hread <;> rw [h] at hread <;> cases hread
  rfl

theorem scanNext_byte {byte} (h : s.readPreviousByte = .ok (some byte, t)) : s.scanNext fromSlice =
    if byte ≠ newline then ({ t with recordReversed := t.recordReversed ++ [byte] } : ReverseJsonlScanner).scanNext fromSlice
    else match (t.finishRecord fromSlice).1 with
      | some outcome => .ok (some outcome, (t.finishRecord fromSlice).2)
      | none => (t.finishRecord fromSlice).2.scanNext fromSlice := by
  rw [scanNext]
  split <;> rename_i hread <;> rw [h] at hread <;> cases hread
  rfl

/-- What the calls return until there is nothing left. -/
inductive Yields : ReverseJsonlScanner → List (ScanOutcome T E) → Prop
  | exhausted {s t : ReverseJsonlScanner} : s.scanNext fromSlice = .ok (none, t) → Yields s []
  | next {s t : ReverseJsonlScanner} {outcome : ScanOutcome T E} {outcomes : List (ScanOutcome T E)} :
    s.scanNext fromSlice = .ok (some outcome, t) → Yields t outcomes → Yields s (outcome :: outcomes)

/-! ## Bytes -/

variable (s)

/-- The bytes still to be read. -/
def rest : Bytes := s.reader.take s.unread

/-- The chunk holds the file's bytes before the position. -/
structure Sound : Prop where
  unread_le : s.unread ≤ s.reader.length
  chunk : s.chunk.take s.chunkPosition = (s.reader.drop s.nextChunkEnd).take s.chunkPosition

variable {s}

theorem takeByte_spec (h : s.Sound) (hposition : s.chunkPosition ≠ 0) : ∃ byte t, s.takeByte = (some byte, t) ∧
    s.rest = t.rest ++ [byte] ∧ t.Sound ∧ t.recordReversed = s.recordReversed := by
  obtain ⟨i, hi⟩ := Nat.exists_eq_add_one_of_ne_zero hposition
  have hbyte : s.reader[s.nextChunkEnd + i]? = some (s.chunk.get ⟨s.chunkPosition - 1, s.position_lt⟩) := by
    have hat := congrArg (fun bytes => bytes[i]?) h.chunk
    rw [List.getElem?_take_of_lt (by omega), List.getElem?_take_of_lt (by omega), List.getElem?_drop] at hat
    rw [← hat]
    simp [hi]
  refine ⟨_, _, rfl, ?_, ⟨?_, ?_⟩, rfl⟩
  · have htake : s.reader.take (s.nextChunkEnd + i + 1) =
        s.reader.take (s.nextChunkEnd + i) ++ [s.chunk.get ⟨s.chunkPosition - 1, s.position_lt⟩] := by
      rw [List.take_add_one, hbyte]
      rfl
    simpa only [rest, unread, hi, Nat.add_sub_cancel, ← Nat.add_assoc] using htake
  · have hle := h.unread_le
    simp only [unread] at hle ⊢
    omega
  · have hchunk := congrArg (List.take i) h.chunk
    rw [List.take_take, List.take_take, Nat.min_eq_left (by omega)] at hchunk
    simpa [hi] using hchunk

theorem readChunk_spec (h : s.Sound) (hposition : s.chunkPosition = 0) (hend : s.nextChunkEnd ≠ 0) :
    ∃ t, s.readChunk = .ok t ∧ t.chunkPosition ≠ 0 ∧ t.rest = s.rest ∧ t.Sound ∧ t.recordReversed = s.recordReversed := by
  have hle := h.unread_le
  rw [unread, hposition] at hle
  have hin : s.nextChunkEnd - min s.nextChunkEnd readChunkSize + min s.nextChunkEnd readChunkSize ≤ s.reader.length := by omega
  have hread : ∃ t, s.readChunk = .ok t ∧ t.reader = s.reader ∧ t.recordReversed = s.recordReversed ∧
      t.chunk.take t.chunkPosition = (s.reader.drop t.nextChunkEnd).take t.chunkPosition := by
    unfold readChunk readExact
    simp only [dif_pos hin]
    refine ⟨_, rfl, rfl, rfl, ?_⟩
    dsimp only
    rw [List.take_append_of_le_length, List.take_take, Nat.min_self]
    rw [List.length_take, List.length_drop]
    omega
  obtain ⟨t, hread, hreader, hrecord, hchunk⟩ := hread
  obtain ⟨hpos, hunread⟩ := readChunk_ok hread hend
  refine ⟨t, hread, hpos, ?_, ⟨?_, ?_⟩, hrecord⟩
  · rw [rest, rest, unread, unread, hunread, hreader, hposition, Nat.add_zero]
  · rw [unread, hunread, hreader]
    exact hle
  · rw [hreader]
    exact hchunk

theorem readPreviousByte_spec (h : s.Sound) : s.rest = [] ∧ s.readPreviousByte = .ok (none, s) ∨
    ∃ byte t, s.readPreviousByte = .ok (some byte, t) ∧ s.rest = t.rest ++ [byte] ∧ t.Sound ∧
      t.recordReversed = s.recordReversed := by
  unfold readPreviousByte
  split
  next hposition =>
    split
    next hend => exact .inl ⟨by rw [rest, unread, hposition, hend, List.take_zero], rfl⟩
    next hend =>
      obtain ⟨t, hread, hpos, hrest, hsound, hrecord⟩ := readChunk_spec h hposition hend
      obtain ⟨byte, u, htake, hu, husound, hurecord⟩ := takeByte_spec hsound hpos
      refine .inr ⟨byte, u, ?_, by rw [← hrest, hu], husound, by rw [hurecord, hrecord]⟩
      rw [hread]
      exact congrArg Except.ok htake
  next hposition =>
    obtain ⟨byte, t, htake, ht⟩ := takeByte_spec h hposition
    exact .inr ⟨byte, t, congrArg Except.ok htake, ht⟩

/-! ## Records -/

/-- The newline-separated records of a text that are not blank. -/
def records (bytes : Bytes) : List Bytes := (bytes.splitOn newline).filter fun record => !record.all isAsciiWhitespace

theorem records_of_not_mem {record} (h : newline ∉ record) :
    records record = if record.all isAsciiWhitespace then [] else [record] := by
  rw [records, List.splitOn_eq_singleton h, List.filter_cons, List.filter_nil]
  cases record.all isAsciiWhitespace <;> rfl

theorem records_append (before after : Bytes) :
    records (before ++ newline :: after) = records before ++ records after := by
  rw [records, List.splitOn_append_cons_self, List.filter_append]
  rfl

theorem Sound.withRecord (h : s.Sound) (record : Bytes) : ({ s with recordReversed := record } : ReverseJsonlScanner).Sound :=
  ⟨h.unread_le, h.chunk⟩

/-- A call takes the last record off what is left. -/
theorem scanNext_spec (h : s.Sound) (hrecord : newline ∉ s.recordReversed) :
    ∃ t, s.scanNext fromSlice =
        .ok ((records (s.rest ++ s.recordReversed.reverse)).getLast?.map (outcome fromSlice), t) ∧
      t.Sound ∧ t.recordReversed = [] ∧ records t.rest = (records (s.rest ++ s.recordReversed.reverse)).dropLast := by
  have hfinish : ∀ {t : ReverseJsonlScanner}, newline ∉ t.recordReversed →
      (t.finishRecord fromSlice).1 = (records t.recordReversed.reverse).getLast?.map (outcome fromSlice) := by
    intro t ht
    rw [records_of_not_mem (mt List.mem_reverse.1 ht), finishRecord]
    cases t.recordReversed.reverse.all isAsciiWhitespace <;> rfl
  generalize hrest : s.rest = bytes
  induction bytes using List.reverseRecOn generalizing s with
  | nil =>
    obtain ⟨-, hread⟩ | ⟨byte, t, -, ht, -⟩ := readPreviousByte_spec h
    · refine ⟨(s.finishRecord fromSlice).2, ?_, h.withRecord [], rfl, ?_⟩
      · rw [scanNext_end fromSlice hread, List.nil_append, ← hfinish hrecord]
      · have hnil : (s.finishRecord fromSlice).2.rest = [] := hrest
        rw [hnil, List.nil_append, records_of_not_mem (mt List.mem_reverse.1 hrecord)]
        cases s.recordReversed.reverse.all isAsciiWhitespace <;> rfl
    · rw [hrest] at ht
      exact absurd ht (by simp)
  | append_singleton bytes byte ih =>
    obtain ⟨hnil, -⟩ | ⟨byte', t, hread, ht, hsound, hrecordT⟩ := readPreviousByte_spec h
    · rw [hrest] at hnil
      exact absurd hnil (by simp)
    rw [hrest] at ht
    obtain ⟨hbytes, hbyte⟩ := List.append_inj' ht rfl
    obtain rfl := (List.cons.inj hbyte).1
    rw [scanNext_byte fromSlice hread, List.append_assoc, ← hrecordT]
    rw [← hrecordT] at hrecord
    by_cases hnewline : byte = newline
    · subst hnewline
      have hsplit := records_append bytes t.recordReversed.reverse
      rw [if_neg (not_not.2 rfl), List.singleton_append, hsplit, hfinish hrecord,
        records_of_not_mem (mt List.mem_reverse.1 hrecord)]
      cases t.recordReversed.reverse.all isAsciiWhitespace with
      | true =>
        have hblank := ih (hsound.withRecord []) List.not_mem_nil hbytes.symm
        rw [List.reverse_nil, List.append_nil] at hblank
        rw [if_pos rfl, List.append_nil]
        exact hblank
      | false =>
        refine ⟨(t.finishRecord fromSlice).2, ?_, hsound.withRecord [], rfl, ?_⟩
        · rw [if_neg Bool.false_ne_true, List.getLast?_concat]
          rfl
        · rw [if_neg Bool.false_ne_true, List.dropLast_concat, hbytes]
          rfl
    · rw [if_pos hnewline]
      have hmore := ih (hsound.withRecord (t.recordReversed ++ [byte])) (by simp [hrecord, Ne.symm hnewline]) hbytes.symm
      rwa [List.reverse_append, List.reverse_singleton, List.singleton_append] at hmore

theorem yields_records (h : s.Sound) (hrecord : s.recordReversed = []) :
    Yields fromSlice s ((records s.rest).reverse.map (outcome fromSlice)) := by
  generalize hrest : records s.rest = rest
  induction rest using List.reverseRecOn generalizing s with
  | nil =>
    obtain ⟨t, hnext, -⟩ := scanNext_spec fromSlice h (by rw [hrecord]; exact List.not_mem_nil)
    rw [hrecord, List.reverse_nil, List.append_nil, hrest] at hnext
    exact .exhausted hnext
  | append_singleton rest record ih =>
    obtain ⟨t, hnext, ht, hrecordT, hrestT⟩ := scanNext_spec fromSlice h (by rw [hrecord]; exact List.not_mem_nil)
    rw [hrecord, List.reverse_nil, List.append_nil, hrest] at hnext hrestT
    rw [List.getLast?_concat] at hnext
    rw [List.dropLast_concat] at hrestT
    rw [List.reverse_append, List.reverse_singleton, List.singleton_append, List.map_cons]
    exact .next hnext (ih ht hrecordT hrestT)

/-- **Every record once, backwards**: the calls return what `from_slice` says of each record of the
prefix that is not blank, from the last to the first, and then nothing. -/
theorem newAt_yields (bytes : Bytes) {endByteOffset : Nat} (h : endByteOffset ≤ bytes.length) :
    ∃ s, newAt bytes endByteOffset = .ok s ∧
      Yields fromSlice s ((records (bytes.take endByteOffset)).reverse.map (outcome fromSlice)) := by
  refine ⟨_, if_neg (by omega), ?_⟩
  refine yields_records fromSlice ⟨h, ?_⟩ rfl
  rw [List.take_zero, List.take_zero]

/-- `a`, a blank line, `b`, and a record behind the end of the scan. -/
def sampleLines : Bytes := [97, 10, 32, 10, 98, 10, 99]

theorem newAt_yields_lines : 5 ≤ sampleLines.length ∧ ∃ s, newAt sampleLines 5 = .ok s ∧
    Yields (fun record => (.ok record : Except Unit Bytes)) s [.parsed [98], .parsed [97]] := by
  refine ⟨by decide, ?_⟩
  have h := newAt_yields (fun record => (.ok record : Except Unit Bytes)) sampleLines (show 5 ≤ sampleLines.length by decide)
  have hrecords : records (sampleLines.take 5) = [[97], [98]] := by decide
  rw [hrecords] at h
  exact h

end ReverseJsonlScanner
end Codex.ReverseJsonl
