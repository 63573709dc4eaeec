/-
The patch grammar on its own: which lines may follow which, with none of the paths and
contents a parser records (`Shape`). The parser refines it: `processLine` accepts exactly
the lines the shape of its state allows, moves to the shape the grammar moves to.
-/
import Codex.Patch

namespace Codex.Patch

open Text

/-- What the last chunk of an update hunk decides about the next line. -/
structure ChunkShape where
  isEmpty : Bool
  isEndOfFile : Bool
  deriving DecidableEq, Repr

/-- A parser state up to the texts it has recorded. -/
inductive Shape where
  | notStarted
  | startedPatch (hasEnvironmentId : Bool)
  | addFile
  | deleteFile
  | updateFile (moved : Bool) (last : Option ChunkShape)
  | endedPatch
  deriving DecidableEq, Repr

namespace Shape

/-- A hunk may end here: an update hunk has a last chunk, and it has lines. -/
def closable : Shape → Bool
  | .updateFile _ last => last.any (!·.isEmpty)
  | _ => true

/-- A line with trimmed text `trimmed` read as a hunk header or the end marker. -/
def header (trimmed : Text) : Option Shape :=
  if trimmed = endPatchMarker then some .endedPatch
  else if startsWith trimmed addFileMarker then some .addFile
  else if startsWith trimmed deleteFileMarker then some .deleteFile
  else if startsWith trimmed updateFileMarker then some (.updateFile false none)
  else none

def isContext (updateLine : Text) : Prop :=
  updateLine = emptyChangeContextMarker ∨ startsWith updateLine changeContextMarker = true

instance (u : Text) : Decidable (isContext u) := inferInstanceAs (Decidable (_ ∨ _))

/-- The lines an update hunk records: empty ones, and those tagged as context, added or removed. -/
def isBody : Text → Bool
  | [] => true
  | c :: _ => c == ' ' || c == '+' || c == '-'

/-- A line of an update hunk that is no header. -/
def updateStep (moved : Bool) (last : Option ChunkShape) (line : Text) : Option Shape :=
  let updateLine := trimEnd line
  if last.any (·.isEndOfFile) ∧ updateLine = [] then some (.updateFile moved last)
  else if last.any (·.isEndOfFile) ∧ ¬ isContext updateLine then none
  else if last.isNone ∧ moved = false ∧ startsWith updateLine moveToMarker then some (.updateFile true last)
  else if isContext updateLine then
    if last.any (·.isEmpty) then none else some (.updateFile moved (some ⟨true, false⟩))
  else if updateLine = eofMarker then
    if last.any (·.isEmpty) then none
    else some (.updateFile moved (last.map ({ · with isEndOfFile := true })))
  else if isBody line then some (.updateFile moved (some ⟨false, last.any (·.isEndOfFile)⟩))
  else none

/-- One line of the grammar; `none` is a rejection. -/
def step : Shape → Text → Option Shape
  | .notStarted, line => if trim line = beginPatchMarker then some (.startedPatch false) else none
  | .startedPatch hasId, line =>
    match stripStart environmentIdMarker (trim line) with
    | some environmentId =>
      if hasId ∨ trim environmentId = [] then none else some (.startedPatch true)
    | none => header (trim line)
  | .addFile, line =>
    match header (trim line) with
    | some s => some s
    | none => if line.head? = some '+' then some .addFile else none
  | .deleteFile, line => header (trim line)
  | .updateFile moved last, line =>
    match header (trimEnd line) with
    | some s => if closable (.updateFile moved last) then some s else none
    | none => updateStep moved last line
  | .endedPatch, line => if trim line = [] then some .endedPatch else none

/-- The line's own text is recorded in a hunk. -/
def records : Shape → Text → Bool
  | .addFile, line => line.head? == some '+'
  | .updateFile _ last, line => !last.any (·.isEndOfFile) && isBody line
  | _, _ => false

/-- The characters an accepted line adds to the hunks (an added file's line
with its newline; a context line goes to both sides of a chunk). -/
def added : Shape → Text → Nat
  | .addFile, '+' :: rest => rest.length + 1
  | .updateFile _ last, c :: rest =>
    if last.any (·.isEndOfFile) then 0
    else if c = ' ' then 2 * rest.length
    else if c = '+' ∨ c = '-' then rest.length
    else 0
  | _, _ => 0

/-- The unterminated last line: the end marker closes any hunk that may end. -/
def finishes (s : Shape) (line : Text) : Bool :=
  if trim line = endPatchMarker then s.closable else s.step line = some .endedPatch

end Shape

/-! ## The shape of a parser state -/

def chunkShape (c : UpdateFileChunk) : ChunkShape :=
  ⟨c.oldLines.isEmpty && c.newLines.isEmpty, c.isEndOfFile⟩

def updateShape (movePath : Option Text) (chunks : List UpdateFileChunk) : Shape :=
  .updateFile movePath.isSome (chunks.getLast?.map chunkShape)

def StreamingParserState.shape (s : StreamingParserState) : Shape :=
  match s.mode with
  | .notStarted => .notStarted
  | .startedPatch => .startedPatch s.environmentId.isSome
  | .addFile => .addFile
  | .deleteFile => .deleteFile
  | .updateFile _ =>
    match s.hunks.getLast? with
    | some (.updateFile _ movePath chunks) => updateShape movePath chunks
    | _ => .updateFile false none
  | .endedPatch => .endedPatch

/-- The last hunk is the one the mode says is open, and a closed patch does
not end in an update hunk that could not be closed. -/
def StreamingParserState.Coherent (s : StreamingParserState) : Prop :=
  match s.mode, s.hunks.getLast? with
  | .notStarted, last => last = none ∧ s.environmentId = none
  | .startedPatch, last => last = none
  | .addFile, some (.addFile _ _) => True
  | .deleteFile, some (.deleteFile _) => True
  | .updateFile _, some (.updateFile _ _ _) => True
  | .endedPatch, some (.updateFile _ _ chunks) => lastChunkIsEmpty chunks = false
  | .endedPatch, _ => True
  | _, _ => False

def chunkWeight (c : UpdateFileChunk) : Nat :=
  (c.oldLines.map List.length).sum + (c.newLines.map List.length).sum

/-- The characters of contents and chunk lines a hunk holds. -/
def Hunk.weight : Hunk → Nat
  | .addFile _ contents => contents.length
  | .deleteFile _ => 0
  | .updateFile _ _ chunks => (chunks.map chunkWeight).sum

def weight (hunks : List Hunk) : Nat := (hunks.map Hunk.weight).sum

@[simp] theorem weight_append (hs gs : List Hunk) : weight (hs ++ gs) = weight hs + weight gs := by
  simp [weight]

@[simp] theorem weight_singleton (h : Hunk) : weight [h] = h.weight := by simp [weight]

theorem weight_dropLast {hunks} {h : Hunk} (hl : hunks.getLast? = some h) :
    weight hunks = weight hunks.dropLast + h.weight := by
  obtain ⟨hs, rfl⟩ := List.getLast?_eq_some_iff.1 hl
  simp

/-! ## Chunks -/

theorem lastChunkIsEmpty_eq (chunks : List UpdateFileChunk) :
    lastChunkIsEmpty chunks = (chunks.getLast?.map chunkShape).any (·.isEmpty) := by
  simp [lastChunkIsEmpty, Option.any_map, chunkShape]

theorem lastChunkIsEndOfFile_eq (chunks : List UpdateFileChunk) :
    lastChunkIsEndOfFile chunks = (chunks.getLast?.map chunkShape).any (·.isEndOfFile) := by
  simp [lastChunkIsEndOfFile, Option.any_map, chunkShape]

/-- A body line recorded in the last chunk: the chunk now has lines, and the
hunk holds the characters the line added. -/
theorem recordLine_spec {f : UpdateFileChunk → UpdateFileChunk} {n : Nat}
    (hshape : ∀ c, chunkShape (f c) = ⟨false, c.isEndOfFile⟩)
    (hweight : ∀ c, chunkWeight (f c) = chunkWeight c + n) (chunks : List UpdateFileChunk) :
    (recordLine f chunks).getLast?.map chunkShape =
        some ⟨false, (chunks.getLast?.map chunkShape).any (·.isEndOfFile)⟩ ∧
      ((recordLine f chunks).map chunkWeight).sum = (chunks.map chunkWeight).sum + n := by
  rcases List.eq_nil_or_concat chunks with rfl | ⟨cs, c, rfl⟩
  · have hnew : chunkWeight (newChunk none) = 0 ∧ (newChunk none).isEndOfFile = false := ⟨rfl, rfl⟩
    simp [recordLine, modifyLastChunk, hshape, hweight, hnew]
  · have heof : (chunkShape c).isEndOfFile = c.isEndOfFile := rfl
    simp [recordLine, modifyLastChunk, hshape, hweight, heof, Nat.add_assoc]

/-! ## The refinement -/

theorem startsWith_iff {s pre : Text} : startsWith s pre = true ↔ (stripStart pre s).isSome := by
  simp only [startsWith, stripStart]
  split <;> simp_all

theorem startsWith_of_stripStart {s pre r : Text} (h : stripStart pre s = some r) :
    startsWith s pre = true := startsWith_iff.2 (by simp [h])

theorem not_startsWith_of_stripStart {s pre : Text} (h : stripStart pre s = none) :
    startsWith s pre = false := by
  rw [← Bool.not_eq_true, startsWith_iff]
  simp [h]

namespace StreamingPatchParser

variable {p : StreamingPatchParser}

theorem coherent_update {n : Nat} (hp : p.state.Coherent) (hm : p.state.mode = .updateFile n) :
    ∃ path movePath chunks, p.state.hunks.getLast? = some (.updateFile path movePath chunks) ∧
      p.state.shape = updateShape movePath chunks := by
  simp only [StreamingParserState.Coherent, hm] at hp
  split at hp <;> simp_all [StreamingParserState.shape]

/-- The check before a hunk ends passes exactly when the shape may be closed. -/
theorem ensureUpdateHunkIsNotEmpty_ok (hp : p.state.Coherent) (line : Text) :
    p.ensureUpdateHunkIsNotEmpty line = .ok () ↔ p.state.shape.closable = true := by
  by_cases hu : ∃ n, p.state.mode = .updateFile n
  · obtain ⟨n, hm⟩ := hu
    obtain ⟨path, movePath, chunks, hl, hs⟩ := coherent_update hp hm
    simp only [ensureUpdateHunkIsNotEmpty, hl, hm, hs, updateShape, Shape.closable, lastChunkIsEmpty_eq]
    rcases List.eq_nil_or_concat chunks with rfl | ⟨cs, c, rfl⟩
    · simp
    · cases h : (chunkShape c).isEmpty <;> simp [h]
      split <;> simp
  · have hc : p.state.shape.closable = true := by
      simp only [StreamingParserState.shape]
      cases hm : p.state.mode <;> first | rfl | exact absurd ⟨_, hm⟩ hu
    simp only [hc, iff_true, ensureUpdateHunkIsNotEmpty]
    simp only [StreamingParserState.Coherent] at hp
    cases hm : p.state.mode <;> simp only [hm] at hp <;> (try split at hp) <;> simp_all

/-- What the grammar says of an answer of `handle_hunk_headers_and_end_patch`. -/
def HeaderOutcome (p : StreamingPatchParser) (trimmed : Text) :
    Except ParseError (Option StreamingPatchParser) → Prop
  | .ok (some p') => Shape.header trimmed = some p'.state.shape ∧ p.state.shape.closable = true ∧
      p'.state.Coherent ∧ weight p'.state.hunks = weight p.state.hunks ∧ p'.lineBuffer = p.lineBuffer
  | .ok none => Shape.header trimmed = none
  | .error _ => Shape.header trimmed ≠ none ∧ p.state.shape.closable = false

/-- A header accepted once the open hunk may end. -/
theorem headerOutcome_closes (hp : p.state.Coherent) {trimmed : Text} {q}
    (hh : Shape.header trimmed = some q.state.shape) (hq : p.state.shape.closable = true → q.state.Coherent)
    (hw : weight q.state.hunks = weight p.state.hunks) (hb : q.lineBuffer = p.lineBuffer) :
    HeaderOutcome p trimmed (do p.ensureUpdateHunkIsNotEmpty trimmed; return some q) := by
  have hens := ensureUpdateHunkIsNotEmpty_ok hp trimmed
  cases he : p.ensureUpdateHunkIsNotEmpty trimmed with
  | ok u => exact ⟨hh, hens.1 he, hq (hens.1 he), hw, hb⟩
  | error e =>
    refine ⟨by simp [hh], ?_⟩
    rw [← Bool.not_eq_true, ← hens, he]
    simp

theorem coherent_endedPatch (hp : p.state.Coherent) (hc : p.state.shape.closable = true) :
    (p.setMode .endedPatch).state.Coherent := by
  simp only [StreamingParserState.Coherent, setMode]
  split <;> try trivial
  next chunks _ hl =>
  by_cases hu : ∃ n, p.state.mode = .updateFile n
  · obtain ⟨n, hm⟩ := hu
    obtain ⟨_, _, _, hl', hs⟩ := coherent_update hp hm
    rw [hs] at hc
    simp only [updateShape, Shape.closable] at hc
    rw [lastChunkIsEmpty_eq]
    cases h : chunks.getLast? <;> simp_all
  · simp only [StreamingParserState.Coherent, hl] at hp
    cases hm : p.state.mode <;> simp_all

theorem header_refines (hp : p.state.Coherent) {trimmed : Text}
    (hn : p.state.mode = .startedPatch → stripStart environmentIdMarker trimmed = none) :
    HeaderOutcome p trimmed (p.handleHunkHeadersAndEndPatch trimmed) := by
  unfold handleHunkHeadersAndEndPatch
  split
  · next hm hs => rw [hn hm] at hs; cases hs
  split
  · next he =>
    exact headerOutcome_closes hp (by simp [Shape.header, he, StreamingParserState.shape, setMode])
      (coherent_endedPatch hp) rfl rfl
  next he =>
  split
  · next path h1 =>
    exact headerOutcome_closes hp
      (by simp [Shape.header, he, startsWith_of_stripStart h1, StreamingParserState.shape, pushHunk])
      (fun _ => by simp [StreamingParserState.Coherent, pushHunk]) (by simp [pushHunk, Hunk.weight]) rfl
  next h1 =>
  split
  · next path h2 =>
    exact headerOutcome_closes hp
      (by simp [Shape.header, he, not_startsWith_of_stripStart h1, startsWith_of_stripStart h2,
        StreamingParserState.shape, pushHunk])
      (fun _ => by simp [StreamingParserState.Coherent, pushHunk]) (by simp [pushHunk, Hunk.weight]) rfl
  next h2 =>
  split
  · next path h3 =>
    exact headerOutcome_closes hp
      (by simp [Shape.header, he, not_startsWith_of_stripStart h1, not_startsWith_of_stripStart h2,
        startsWith_of_stripStart h3, StreamingParserState.shape, pushHunk, updateShape])
      (fun _ => by simp [StreamingParserState.Coherent, pushHunk]) (by simp [pushHunk, Hunk.weight]) rfl
  · next h3 =>
    simp [HeaderOutcome, Shape.header, he, not_startsWith_of_stripStart h1, not_startsWith_of_stripStart h2,
      not_startsWith_of_stripStart h3]

theorem not_startsWith_of_head {u m : Text} {d : Char} (hm : m.head? = some d) (hu : u.head? ≠ some d) :
    startsWith u m = false ∧ u ≠ m := by
  obtain ⟨t, rfl⟩ := List.head?_eq_some_iff.1 hm
  cases u with
  | nil => exact ⟨rfl, by simp⟩
  | cons c u =>
    have hdc : d ≠ c := fun h => hu (by simp [h])
    exact ⟨by simp [startsWith, List.isPrefixOf, hdc], fun h => hdc (List.cons.inj h).1.symm⟩

/-- Every marker starts with `*` or `@`. -/
theorem not_marker_of_head {u : Text} (h : u.head? ≠ some '*' ∧ u.head? ≠ some '@') :
    ¬ Shape.isContext u ∧ startsWith u moveToMarker = false ∧ u ≠ eofMarker ∧ Shape.header u = none := by
  have hctx := not_startsWith_of_head (m := changeContextMarker) (by decide) h.2
  have hempty := not_startsWith_of_head (m := emptyChangeContextMarker) (by decide) h.2
  have hadd := not_startsWith_of_head (m := addFileMarker) (by decide) h.1
  have hdelete := not_startsWith_of_head (m := deleteFileMarker) (by decide) h.1
  have hupdate := not_startsWith_of_head (m := updateFileMarker) (by decide) h.1
  have hmove := not_startsWith_of_head (m := moveToMarker) (by decide) h.1
  have heof := not_startsWith_of_head (m := eofMarker) (by decide) h.1
  have hend := not_startsWith_of_head (m := endPatchMarker) (by decide) h.1
  refine ⟨?_, hmove.1, heof.2, ?_⟩
  · simp [Shape.isContext, hctx.1, hempty.2]
  · simp [Shape.header, hend.2, hadd.1, hdelete.1, hupdate.1]

theorem head?_trimEnd {line : Text} {c : Char} (h : (trimEnd line).head? = some c) : line.head? = some c := by
  obtain ⟨t, ht⟩ := List.rdropWhile_prefix isWhitespace line
  rw [← ht]
  change (trimEnd line ++ t).head? = some c
  rw [List.head?_append, h]
  rfl

/-- A line an update hunk records starts no marker, so only the state decides about it. -/
theorem isBody_not_marker {line : Text} (h : Shape.isBody line = true) :
    ¬ Shape.isContext (trimEnd line) ∧ startsWith (trimEnd line) moveToMarker = false ∧
      trimEnd line ≠ eofMarker ∧ Shape.header (trimEnd line) = none := by
  have hne {d : Char} (hd : d ≠ ' ' ∧ d ≠ '+' ∧ d ≠ '-') : (trimEnd line).head? ≠ some d := by
    intro hc
    obtain ⟨rest, rfl⟩ := List.head?_eq_some_iff.1 (head?_trimEnd hc)
    simp [Shape.isBody, hd.1, hd.2.1, hd.2.2] at h
  exact not_marker_of_head ⟨hne (by decide), hne (by decide)⟩

/-- What the grammar says of an update hunk's answer to a line. -/
def UpdateOutcome (movePath : Option Text) (chunks : List UpdateFileChunk) (line : Text) :
    Except String Hunk → Prop
  | .ok hunk => ∃ path movePath' chunks', hunk = .updateFile path movePath' chunks' ∧
      Shape.updateStep movePath.isSome (chunks.getLast?.map chunkShape) line =
        some (updateShape movePath' chunks') ∧
      hunk.weight = (chunks.map chunkWeight).sum + (updateShape movePath chunks).added line
  | .error _ => Shape.updateStep movePath.isSome (chunks.getLast?.map chunkShape) line = none

theorem added_of_not_body {moved last} {line : Text} (h : Shape.isBody line = false) :
    (Shape.updateFile moved last).added line = 0 := by
  cases line with
  | nil => rfl
  | cons c rest =>
    simp only [Shape.isBody, Bool.or_eq_false_iff, beq_eq_false_iff_ne] at h
    simp [Shape.added, h.1.1, h.1.2, h.2]

theorem added_of_endOfFile {moved last} (h : last.any (·.isEndOfFile) = true) (line : Text) :
    (Shape.updateFile moved last).added line = 0 := by
  cases line <;> simp [Shape.added, h]

theorem updateHunkLine_refines (path : Text) (movePath : Option Text) (chunks : List UpdateFileChunk)
    (line : Text) : UpdateOutcome movePath chunks line (updateHunkLine path movePath chunks line) := by
  have hnone : chunks.isEmpty = (chunks.getLast?.map chunkShape).isNone := by
    cases chunks <;> simp
  unfold updateHunkLine
  simp only [lastChunkIsEmpty_eq, lastChunkIsEndOfFile_eq, hnone]
  generalize hlast : chunks.getLast?.map chunkShape = last
  split
  · next h =>
    refine ⟨path, movePath, chunks, rfl, ?_, ?_⟩
    · simp [hlast, Shape.updateStep, h.1, h.2, updateShape]
    · simp [Hunk.weight, updateShape, hlast, added_of_endOfFile h.1]
  next h1 =>
  split
  · next h =>
    simp only [UpdateOutcome, hlast, Shape.updateStep, if_neg h1]
    exact if_pos h
  next h2 =>
  split
  · next moveToPath hmv hst =>
    have hb : Shape.isBody line = false := by
      by_contra hb
      have := (isBody_not_marker (by simpa using hb)).2.1
      rw [startsWith_of_stripStart hst] at this
      cases this
    refine ⟨path, some moveToPath, chunks, rfl, ?_, ?_⟩
    · simp only [Bool.and_eq_true, Option.isNone_iff_eq_none] at hmv
      simp only [hlast, Shape.updateStep, if_neg h1, Shape.isContext, if_neg h2]
      rw [if_pos ⟨by simp [hmv.1], by simp [hmv.2], startsWith_of_stripStart hst⟩]
      simp [updateShape, hlast]
    · simp [Hunk.weight, updateShape, added_of_not_body hb]
  next hnm =>
  have h3 : ¬ (last.isNone ∧ movePath.isSome = false ∧ startsWith (trimEnd line) moveToMarker) := by
    rintro ⟨hl, hm, hs⟩
    obtain ⟨r, hr⟩ := Option.isSome_iff_exists.1 (startsWith_iff.1 hs)
    exact hnm r (by simpa [hl] using hm) hr
  have hstep : Shape.updateStep movePath.isSome last line =
      if Shape.isContext (trimEnd line) then
        if last.any (·.isEmpty) then none else some (.updateFile movePath.isSome (some ⟨true, false⟩))
      else if trimEnd line = eofMarker then
        if last.any (·.isEmpty) then none
        else some (.updateFile movePath.isSome (last.map ({ · with isEndOfFile := true })))
      else if Shape.isBody line then
        some (.updateFile movePath.isSome (some ⟨false, last.any (·.isEndOfFile)⟩))
      else none := by
    simp only [Shape.updateStep, if_neg h1, if_neg h3, Shape.isContext, if_neg h2]
  have hbody : Shape.isContext (trimEnd line) ∨ trimEnd line = eofMarker → Shape.isBody line = false := by
    intro h
    by_contra hb
    have := isBody_not_marker (by simpa using hb)
    exact h.elim this.1 this.2.2.1
  split
  · next h =>
    have hc : Shape.isContext (trimEnd line) := h.1
    simp [UpdateOutcome, hlast, hstep, hc, h.2]
  next h4 =>
  have opens (ctx : Option Text) (hc : Shape.isContext (trimEnd line)) :
      UpdateOutcome movePath chunks line (.ok (.updateFile path movePath (chunks ++ [newChunk ctx]))) := by
    have hne : last.any (·.isEmpty) = false := by
      by_contra hb
      exact h4 ⟨hc, by simpa using hb⟩
    refine ⟨path, movePath, _, rfl, ?_, ?_⟩
    · simp [hlast, hstep, hc, hne, updateShape, newChunk, chunkShape]
    · simp [Hunk.weight, newChunk, chunkWeight, updateShape, added_of_not_body (hbody (.inl hc))]
  split
  · next he => exact opens none (.inl he)
  next he =>
  split
  · next ctx hctx => exact opens (some ctx) (.inr (startsWith_of_stripStart hctx))
  next hctx =>
  have hc : ¬ Shape.isContext (trimEnd line) := by
    simp [Shape.isContext, he, not_startsWith_of_stripStart hctx]
  split
  · next heof =>
    split
    · next hem => rw [UpdateOutcome, hlast, hstep, if_neg hc, if_pos heof, if_pos hem]
    · next hem =>
      refine ⟨path, movePath, _, rfl, ?_, ?_⟩
      · rw [hlast, hstep, if_neg hc, if_pos heof, if_neg hem, ← hlast]
        rcases List.eq_nil_or_concat chunks with rfl | ⟨cs, c, rfl⟩ <;>
          simp [modifyLastChunk, updateShape, chunkShape]
      · rw [updateShape, added_of_not_body (hbody (.inr heof))]
        rcases List.eq_nil_or_concat chunks with rfl | ⟨cs, c, rfl⟩ <;>
          simp [modifyLastChunk, Hunk.weight, chunkWeight]
  next hne =>
  -- What is left depends on the line's tag alone.
  have records {f : UpdateFileChunk → UpdateFileChunk} (hb : Shape.isBody line = true)
      (hf : ∀ c, chunkShape (f c) = ⟨false, c.isEndOfFile⟩)
      (hw : ∀ c, chunkWeight (f c) = chunkWeight c + (Shape.updateFile movePath.isSome last).added line) :
      UpdateOutcome movePath chunks line (.ok (.updateFile path movePath (recordLine f chunks))) := by
    obtain ⟨hs, hsum⟩ := recordLine_spec hf hw chunks
    refine ⟨path, movePath, _, rfl, ?_, ?_⟩
    · simp only [hlast, hstep, if_neg hc, if_neg hne, hb, if_true, updateShape, hs]
    · simp only [Hunk.weight, hsum, updateShape, hlast]
  have heofLast : last.any (·.isEndOfFile) = false := by
    by_contra hb
    exact h2 ⟨by simpa using hb, hc⟩
  split
  · exact records rfl (by simp [chunkShape]) (by simp [chunkWeight, Shape.added])
  · exact records rfl (by simp [chunkShape])
      (by intro c; simp [chunkWeight, Shape.added, heofLast]; omega)
  · exact records rfl (by simp [chunkShape])
      (by intro c; simp [chunkWeight, Shape.added, heofLast]; omega)
  · exact records rfl (by simp [chunkShape])
      (by intro c; simp [chunkWeight, Shape.added, heofLast]; omega)
  · next h1 h2 h3 h4 =>
    have hb : Shape.isBody line = false := by
      cases line with
      | nil => exact absurd rfl h1
      | cons c rest =>
        have hs : c ≠ ' ' := by rintro rfl; exact h2 rest rfl
        have hp : c ≠ '+' := by rintro rfl; exact h3 rest rfl
        have hm : c ≠ '-' := by rintro rfl; exact h4 rest rfl
        simp [Shape.isBody, hs, hp, hm]
    split <;> simp [UpdateOutcome, hlast, hstep, hc, hne, hb]

/-- What the grammar says of the parser's answer to a line. -/
def LineOutcome (p : StreamingPatchParser) (line : Text) : Except ParseError StreamingPatchParser → Prop
  | .ok p' => p.state.shape.step line = some p'.state.shape ∧ p'.state.Coherent ∧
      weight p'.state.hunks = weight p.state.hunks + p.state.shape.added line ∧ p'.lineBuffer = p.lineBuffer
  | .error _ => p.state.shape.step line = none

theorem header_of_plus {line : Text} (h : line.head? = some '+') : Shape.header (trim line) = none := by
  obtain ⟨rest, rfl⟩ := List.head?_eq_some_iff.1 h
  have hs : trimStart ('+' :: rest) = '+' :: rest := by simp [trimStart, isWhitespace]
  have hne {d : Char} (hd : d ≠ '+') : (trim ('+' :: rest)).head? ≠ some d := by
    intro hc
    rw [trim, hs] at hc
    have := head?_trimEnd hc
    simp only [List.head?_cons, Option.some.injEq] at this
    exact hd this.symm
  exact (not_marker_of_head ⟨hne (by decide), hne (by decide)⟩).2.2.2

/-- A header line in a state whose grammar reads it as one. -/
theorem lineOutcome_of_header {trimmed line : Text} {r}
    (hr : HeaderOutcome p trimmed (p.handleHunkHeadersAndEndPatch trimmed))
    (hstep : ∀ s, Shape.header trimmed = some s →
      p.state.shape.step line = if p.state.shape.closable then some s else none)
    (hadd : Shape.header trimmed ≠ none → p.state.shape.added line = 0)
    (hnone : Shape.header trimmed = none → LineOutcome p line r) :
    LineOutcome p line (do
      match ← p.handleHunkHeadersAndEndPatch trimmed with
      | some p' => return p'
      | none => r) := by
  cases h : p.handleHunkHeadersAndEndPatch trimmed with
  | error e =>
    rw [h] at hr
    obtain ⟨s, hs⟩ := Option.ne_none_iff_exists'.1 hr.1
    change p.state.shape.step line = none
    simp [hstep s hs, hr.2]
  | ok o =>
    rw [h] at hr
    cases o with
    | none => exact hnone hr
    | some p' =>
      obtain ⟨hh, hc, hcoh, hw, hb⟩ := hr
      refine ⟨by simp [hstep _ hh, hc], hcoh, ?_, hb⟩
      rw [hw, hadd (by simp [hh]), Nat.add_zero]

/-- An environment id line, read only before the first hunk. -/
theorem environmentId_refines (hp : p.state.Coherent) (hm : p.state.mode = .startedPatch) {line r : Text}
    (hr : stripStart environmentIdMarker (trim line) = some r) : LineOutcome p line (p.processLine line) := by
  have hs : p.state.shape = .startedPatch p.state.environmentId.isSome := by
    simp [StreamingParserState.shape, hm]
  have hl : p.state.hunks.getLast? = none := by simpa [StreamingParserState.Coherent, hm] using hp
  simp only [processLine, hm, handleHunkHeadersAndEndPatch, hr]
  split
  · next h => simp [LineOutcome, hs, Shape.step, hr, h, bind, Except.bind]
  next h =>
  split
  · next he =>
    simp [LineOutcome, hs, Shape.step, hr, List.isEmpty_iff.1 he, bind, Except.bind]
  · next he =>
    have he' : trim r ≠ [] := by simpa using he
    refine ⟨?_, ?_, ?_, rfl⟩
    · rw [hs, Shape.step, hr]
      simp [h, he', StreamingParserState.shape]
    · simp [StreamingParserState.Coherent, hl]
    · simp [hs, Shape.added]

/-- **The parser refines the grammar.** -/
theorem processLine_refines (hp : p.state.Coherent) (line : Text) :
    LineOutcome p line (p.processLine line) := by
  cases hm : p.state.mode with
  | notStarted =>
    have hs : p.state.shape = .notStarted := by simp [StreamingParserState.shape, hm]
    simp only [processLine, hm]
    split
    · next h =>
      refine ⟨?_, ?_, by simp [hs, Shape.added, setMode], rfl⟩
      · rw [hs, Shape.step, if_pos h]
        simp only [StreamingParserState.Coherent, hm] at hp
        simp [setMode, StreamingParserState.shape, hp.2]
      · simp only [StreamingParserState.Coherent, hm] at hp
        simp [StreamingParserState.Coherent, setMode, hp.1]
    · next h => simp [LineOutcome, hs, Shape.step, h]
  | startedPatch =>
    have hs : p.state.shape = .startedPatch p.state.environmentId.isSome := by
      simp [StreamingParserState.shape, hm]
    cases hr : stripStart environmentIdMarker (trim line) with
    | some r => exact environmentId_refines hp hm hr
    | none =>
      simp only [processLine, hm]
      refine lineOutcome_of_header (header_refines hp fun _ => hr) ?_ (by simp [hs, Shape.added]) ?_
      · intro s h
        simp [hs, Shape.step, hr, h, Shape.closable]
      · intro h
        simp [invalidHunkHeader, LineOutcome, hs, Shape.step, hr, h]
  | deleteFile =>
    have hs : p.state.shape = .deleteFile := by simp [StreamingParserState.shape, hm]
    simp only [processLine, hm]
    refine lineOutcome_of_header (header_refines hp fun h => by simp [hm] at h) ?_ (by simp [hs, Shape.added]) ?_
    · intro s h
      simp [hs, Shape.step, h, Shape.closable]
    · intro h
      simp [invalidHunkHeader, LineOutcome, hs, Shape.step, h]
  | addFile =>
    have hs : p.state.shape = .addFile := by simp [StreamingParserState.shape, hm]
    obtain ⟨path, contents, hl⟩ : ∃ path contents, p.state.hunks.getLast? = some (.addFile path contents) := by
      simp only [StreamingParserState.Coherent, hm] at hp
      split at hp <;> simp_all
    simp only [processLine, hm, hl]
    refine lineOutcome_of_header (header_refines hp fun h => by simp [hm] at h) ?_ ?_ ?_
    · intro s h
      simp [hs, Shape.step, h, Shape.closable]
    · intro h
      rw [hs]
      unfold Shape.added
      split
      · exact absurd (header_of_plus rfl) h
      · next heq => cases heq
      · rfl
    · intro h
      by_cases hplus : line.head? = some '+'
      · obtain ⟨lineToAdd, rfl⟩ := List.head?_eq_some_iff.1 hplus
        refine ⟨?_, ?_, ?_, rfl⟩
        · rw [hs, Shape.step, h]
          simp [setLastHunk, StreamingParserState.shape, hm]
        · simp [StreamingParserState.Coherent, hm, setLastHunk]
        · simp [setLastHunk, hs, Shape.added, weight_dropLast hl, Hunk.weight, Nat.add_assoc]
      · split
        · exact absurd rfl hplus
        · simp [invalidHunkHeader, LineOutcome, hs, Shape.step, h, hplus]
  | updateFile n =>
    obtain ⟨path, movePath, chunks, hl, hs⟩ := coherent_update hp hm
    simp only [processLine, hm, hl]
    refine lineOutcome_of_header (header_refines hp fun h => by simp [hm] at h) ?_ ?_ ?_
    · intro s h
      simp [hs, updateShape, Shape.step, h]
    · intro h
      rw [hs, updateShape]
      refine added_of_not_body ?_
      by_contra hb
      exact h (isBody_not_marker (by simpa using hb)).2.2.2
    · intro h
      have href := updateHunkLine_refines path movePath chunks line
      have hstep : p.state.shape.step line =
          Shape.updateStep movePath.isSome (chunks.getLast?.map chunkShape) line := by
        simp [hs, updateShape, Shape.step, h]
      split
      · next hunk heq =>
        rw [heq] at href
        obtain ⟨path', movePath', chunks', rfl, hu, hw⟩ := href
        refine ⟨?_, ?_, ?_, rfl⟩
        · rw [hstep, hu]
          simp [StreamingParserState.shape, setLastHunk, hm]
        · simp [StreamingParserState.Coherent, setLastHunk, hm]
        · simp only [setLastHunk, weight_append, weight_singleton, hw, weight_dropLast hl, hs]
          simp only [Hunk.weight]
          omega
      · next message heq =>
        rw [heq] at href
        exact hstep.trans href
  | endedPatch =>
    have hs : p.state.shape = .endedPatch := by simp [StreamingParserState.shape, hm]
    simp only [processLine, hm]
    split
    · next h => exact ⟨by simp [hs, Shape.step, h], hp, by simp [hs, Shape.added], rfl⟩
    · next h => simp [LineOutcome, hs, Shape.step, h]

end StreamingPatchParser

end Codex.Patch
