/-
Patches written out and parsed back. A patch to write is its hunks with their tagged lines
(`PatchSource`), and `render` writes it by the grammar the parser documents. The parser
gives the hunks back (`parsePatch_render`): a tag is never the first character of a
marker, so the mode and the tag decide what becomes of a line.
-/
import Codex.PatchStream

namespace Codex.Patch

open Text

/-! ## Patches to write -/

/-- A path, a change context or an environment id: one line of text, without
blanks around it. -/
structure Name where
  text : Text
  ne : text ≠ []
  newline : '\n' ∉ text
  trim : trim text = text
  deriving DecidableEq

/-- The text of a line, after its tag. -/
structure Body where
  text : Text
  newline : '\n' ∉ text
  cr : text.getLast? ≠ some '\r'
  deriving DecidableEq

inductive LineTag
  | context
  | added
  | removed
  deriving DecidableEq, Repr

def LineTag.char : LineTag → Char
  | .context => ' '
  | .added => '+'
  | .removed => '-'

structure ChunkSource where
  changeContext : Option Name
  lines : List (LineTag × Body)
  lines_ne : lines ≠ []
  endOfFile : Bool

inductive HunkSource
  | addFile (path : Name) (lines : List Body)
  | deleteFile (path : Name)
  /-- `bare`: a first chunk without a context is written without its `@@` -/
  | updateFile (path : Name) (movePath : Option Name) (bare : Bool) (chunks : List ChunkSource)

structure PatchSource where
  environmentId : Option Name
  hunks : List HunkSource

/-! ## What they are parsed to -/

def ChunkSource.chunk (c : ChunkSource) : UpdateFileChunk where
  changeContext := c.changeContext.map (·.text)
  oldLines := (c.lines.filter fun l => l.1 ≠ .added).map (·.2.text)
  newLines := (c.lines.filter fun l => l.1 ≠ .removed).map (·.2.text)
  isEndOfFile := c.endOfFile

def HunkSource.hunk : HunkSource → Hunk
  | .addFile path lines => .addFile path.text (lines.flatMap fun l => l.text ++ ['\n'])
  | .deleteFile path => .deleteFile path.text
  | .updateFile path movePath _ chunks => .updateFile path.text (movePath.map (·.text)) (chunks.map (·.chunk))

/-! ## How they are written -/

def contextLine : Option Name → Text
  | some context => changeContextMarker ++ context.text
  | none => emptyChangeContextMarker

def ChunkSource.bodyLines (c : ChunkSource) : List Text :=
  (c.lines.map fun l => l.1.char :: l.2.text) ++ if c.endOfFile then [eofMarker] else []

def ChunkSource.render (c : ChunkSource) : List Text := contextLine c.changeContext :: c.bodyLines

def renderChunks (bare : Bool) : List ChunkSource → List Text
  | [] => []
  | c :: chunks =>
    (if bare ∧ c.changeContext.isNone then c.bodyLines else c.render) ++ chunks.flatMap (·.render)

def HunkSource.render : HunkSource → List Text
  | .addFile path lines => (addFileMarker ++ path.text) :: lines.map fun l => '+' :: l.text
  | .deleteFile path => [deleteFileMarker ++ path.text]
  | .updateFile path movePath bare chunks =>
    (updateFileMarker ++ path.text) ::
      ((movePath.map fun path => moveToMarker ++ path.text).toList ++ renderChunks bare chunks)

/-- The lines between the first and the last. -/
def PatchSource.innerLines (s : PatchSource) : List Text :=
  (s.environmentId.map fun id => environmentIdMarker ++ ' ' :: id.text).toList ++ s.hunks.flatMap (·.render)

/-- `end_patch` may or may not end with a newline. -/
def PatchSource.render (s : PatchSource) (finalNewline : Bool) : Text :=
  joinLines (beginPatchMarker :: s.innerLines ++ [endPatchMarker]) ++ if finalNewline then ['\n'] else []

/-- Every update hunk changes something. -/
def HunkSource.HasChunks : HunkSource → Prop
  | .updateFile _ _ _ chunks => chunks ≠ []
  | _ => True

/-! ## Markers and what follows them -/

theorem stripStart_append (m s : Text) : stripStart m (m ++ s) = some s := by
  unfold stripStart
  rw [if_pos (List.isPrefixOf_iff_prefix.2 (List.prefix_append ..)), List.drop_left]

variable {m a line contents : Text} (context : Option Name) {ls : List Text} (c : ChunkSource)
  (source : PatchSource)

/-- A text that begins with `a` does not begin with `m` if neither begins with the other. -/
theorem not_prefix_append (h : m.isPrefixOf a = false) (h' : a.isPrefixOf m = false) (s : Text) :
    ¬ m <+: a ++ s := by
  intro hm
  rw [← Bool.not_eq_true, List.isPrefixOf_iff_prefix] at h h'
  obtain hma | ham := List.prefix_or_prefix_of_prefix hm (List.prefix_append a s)
  · exact h hma
  · exact h' ham

theorem stripStart_other (h : m.isPrefixOf a = false) (h' : a.isPrefixOf m = false) (s : Text) :
    stripStart m (a ++ s) = none := by
  unfold stripStart
  rw [if_neg]
  rw [List.isPrefixOf_iff_prefix]
  exact not_prefix_append h h' s

theorem append_ne_other (h : m.isPrefixOf a = false) (h' : a.isPrefixOf m = false) (s : Text) :
    a ++ s ≠ m := by
  intro heq
  exact not_prefix_append h h' s (heq ▸ List.prefix_refl _)

theorem trim_eq_self {s : Text} (hhead : ∀ c, s.head? = some c → isWhitespace c = false)
    (hlast : ∀ c, s.getLast? = some c → isWhitespace c = false) : trim s = s ∧ trimEnd s = s := by
  have hend : trimEnd s = s := by
    unfold trimEnd
    rw [List.rdropWhile_eq_self_iff]
    intro hne hw
    rw [hlast _ (List.getLast?_eq_some_getLast hne)] at hw
    exact Bool.false_ne_true hw
  have hstart : trimStart s = s := by
    unfold trimStart
    cases s with
    | nil => rfl
    | cons c s => rw [List.dropWhile_cons_of_neg (by rw [hhead c rfl]; exact Bool.false_ne_true)]
  refine ⟨?_, hend⟩
  unfold trim
  rw [hstart, hend]

theorem trim_marker {d : Char} (hm : m.head? = some d) (hd : isWhitespace d = false) (n : Name) :
    trim (m ++ n.text) = m ++ n.text ∧ trimEnd (m ++ n.text) = m ++ n.text := by
  apply trim_eq_self
  · intro c hc
    rw [List.head?_append, hm] at hc
    rw [← Option.some.inj hc]
    exact hd
  · intro c hc
    rw [List.getLast?_append_of_ne_nil _ n.ne] at hc
    exact getLast?_of_trim_eq n.trim hc

namespace StreamingPatchParser

variable {p p' : StreamingPatchParser}

/-! ## Headers -/

/-- A hunk header or the end marker may come now. -/
structure Open (p : StreamingPatchParser) : Prop where
  coherent : p.state.Coherent
  closable : p.state.shape.closable = true
  started : p.state.mode ≠ .notStarted
  notEnded : p.state.mode ≠ .endedPatch

theorem processLine_header (h : p.Open) (htrim : trim line = line ∧ trimEnd line = line)
    (hline : p.handleHunkHeadersAndEndPatch line = .ok (some p')) : p.processLine line = .ok p' := by
  cases hm : p.state.mode with
  | notStarted => exact absurd hm h.started
  | endedPatch => exact absurd hm h.notEnded
  | startedPatch | addFile | deleteFile | updateFile =>
    simp only [processLine, hm, htrim.1, htrim.2, hline]
    rfl

theorem ensure_ok (h : p.Open) (line : Text) : p.ensureUpdateHunkIsNotEmpty line = .ok () :=
  (ensureUpdateHunkIsNotEmpty_ok h.coherent line).2 h.closable

theorem handle_addFile (h : p.Open) (path : Name) :
    p.handleHunkHeadersAndEndPatch (addFileMarker ++ path.text) = .ok (some (p.pushHunk (.addFile path.text []) .addFile)) := by
  have henv := stripStart_other (m := environmentIdMarker) (a := addFileMarker) (by decide) (by decide) path.text
  have hend := append_ne_other (m := endPatchMarker) (a := addFileMarker) (by decide) (by decide) path.text
  unfold handleHunkHeadersAndEndPatch
  rw [henv, stripStart_append, ensure_ok h, if_neg hend]
  cases p.state.mode <;> rfl

theorem handle_deleteFile (h : p.Open) (path : Name) :
    p.handleHunkHeadersAndEndPatch (deleteFileMarker ++ path.text) =
      .ok (some (p.pushHunk (.deleteFile path.text) .deleteFile)) := by
  have henv := stripStart_other (m := environmentIdMarker) (a := deleteFileMarker) (by decide) (by decide) path.text
  have hend := append_ne_other (m := endPatchMarker) (a := deleteFileMarker) (by decide) (by decide) path.text
  have hadd := stripStart_other (m := addFileMarker) (a := deleteFileMarker) (by decide) (by decide) path.text
  unfold handleHunkHeadersAndEndPatch
  rw [henv, hadd, stripStart_append, ensure_ok h, if_neg hend]
  cases p.state.mode <;> rfl

theorem handle_updateFile (h : p.Open) (path : Name) :
    p.handleHunkHeadersAndEndPatch (updateFileMarker ++ path.text) =
      .ok (some (p.pushHunk (.updateFile path.text none []) (.updateFile p.lineNumber))) := by
  have henv := stripStart_other (m := environmentIdMarker) (a := updateFileMarker) (by decide) (by decide) path.text
  have hend := append_ne_other (m := endPatchMarker) (a := updateFileMarker) (by decide) (by decide) path.text
  have hadd := stripStart_other (m := addFileMarker) (a := updateFileMarker) (by decide) (by decide) path.text
  have hdelete := stripStart_other (m := deleteFileMarker) (a := updateFileMarker) (by decide) (by decide) path.text
  unfold handleHunkHeadersAndEndPatch
  rw [henv, hadd, hdelete, stripStart_append, ensure_ok h, if_neg hend]
  cases p.state.mode <;> rfl

theorem handle_none (hp : p.state.Coherent) (hm : p.state.mode ≠ .startedPatch)
    (hline : Shape.header line = none) : p.handleHunkHeadersAndEndPatch line = .ok none := by
  have hr := @header_refines p hp line (fun h => absurd h hm)
  cases h : p.handleHunkHeadersAndEndPatch line with
  | error e =>
    rw [h] at hr
    exact absurd hline hr.1
  | ok o =>
    rw [h] at hr
    cases o with
    | none => rfl
    | some q => exact nomatch hline.symm.trans hr.1

/-! ## Lines of a hunk -/

variable {hunks : List Hunk} {env : Option Text}

theorem processLine_added {path : Text} (hs : p.state = ⟨.addFile, hunks ++ [.addFile path contents], env⟩) (l : Text) :
    ∃ p', p.processLine ('+' :: l) = .ok p' ∧
      p'.state = ⟨.addFile, hunks ++ [.addFile path (contents ++ (l ++ ['\n']))], env⟩ := by
  have hlast : p.state.hunks.getLast? = some (.addFile path contents) := by rw [hs, List.getLast?_concat]
  have hm : p.state.mode = .addFile := by rw [hs]
  have hcoh : p.state.Coherent := by
    unfold StreamingParserState.Coherent
    rw [hm, hlast]
    trivial
  have hnone := handle_none hcoh (by rw [hm]; decide) (@header_of_plus ('+' :: l) rfl)
  refine ⟨p.setLastHunk (.addFile path (contents ++ l ++ ['\n'])), ?_, ?_⟩
  · simp only [processLine, hm, hnone, hlast]
    rfl
  · unfold setLastHunk
    rw [hs]
    simp

theorem processLine_update {n : Nat} {path : Text} {movePath chunks} {hunk : Hunk}
    (hs : p.state = ⟨.updateFile n, hunks ++ [.updateFile path movePath chunks], env⟩)
    (hheader : Shape.header (trimEnd line) = none) (hline : updateHunkLine path movePath chunks line = .ok hunk) :
    ∃ p', p.processLine line = .ok p' ∧ p'.state = ⟨.updateFile n, hunks ++ [hunk], env⟩ := by
  have hlast : p.state.hunks.getLast? = some (.updateFile path movePath chunks) := by rw [hs, List.getLast?_concat]
  have hm : p.state.mode = .updateFile n := by rw [hs]
  have hcoh : p.state.Coherent := by
    unfold StreamingParserState.Coherent
    rw [hm, hlast]
    trivial
  have hnone := handle_none hcoh (by rw [hm]; exact nofun) hheader
  refine ⟨p.setLastHunk hunk, ?_, ?_⟩
  · simp only [processLine, hm, hnone, hlast, hline]
    rfl
  · unfold setLastHunk
    rw [hs]
    simp

/-! ## Lines of a chunk -/

section

variable (path : Text) (movePath : Option Text) {chunks : List UpdateFileChunk}

theorem stripStart_of_not_startsWith {s : Text} (h : startsWith s m = false) : stripStart m s = none := by
  unfold stripStart
  unfold startsWith at h
  rw [h]
  rfl

theorem contextLine_head : (contextLine context).head? = some '@' := by
  cases context <;> rfl

theorem trim_contextLine : trimEnd (contextLine context) = contextLine context := by
  cases context with
  | none => exact (by decide : trimEnd emptyChangeContextMarker = emptyChangeContextMarker)
  | some context => exact (trim_marker (m := changeContextMarker) (d := '@') (by decide) (by decide) context).2

theorem isContext_contextLine : Shape.isContext (contextLine context) := by
  cases context with
  | none => exact .inl rfl
  | some context => exact .inr (startsWith_of_stripStart (stripStart_append ..))

theorem header_contextLine : Shape.header (contextLine context) = none := by
  have hne : (contextLine context).head? ≠ some '*' := by rw [contextLine_head]; decide
  unfold Shape.header
  rw [if_neg (not_startsWith_of_head (m := endPatchMarker) (by decide) hne).2,
    (not_startsWith_of_head (m := addFileMarker) (by decide) hne).1,
    (not_startsWith_of_head (m := deleteFileMarker) (by decide) hne).1,
    (not_startsWith_of_head (m := updateFileMarker) (by decide) hne).1]
  rfl

/-- A context line opens a chunk once the one before has lines. -/
theorem updateHunkLine_context (hchunks : lastChunkIsEmpty chunks = false) (context : Option Name) :
    updateHunkLine path movePath chunks (contextLine context) =
      .ok (.updateFile path movePath (chunks ++ [newChunk (context.map (·.text))])) := by
  have hcontext := isContext_contextLine context
  have hne : contextLine context ≠ [] := by
    intro h
    have := contextLine_head context
    rw [h] at this
    cases this
  have hmove : stripStart moveToMarker (contextLine context) = none :=
    stripStart_of_not_startsWith
      (not_startsWith_of_head (m := moveToMarker) (d := '*') (by decide) (by rw [contextLine_head]; decide)).1
  unfold Shape.isContext at hcontext
  unfold updateHunkLine
  simp only [trim_contextLine, hne, hcontext, hmove, hchunks, and_false, not_true, if_false, Bool.false_eq_true]
  generalize (chunks.isEmpty && movePath.isNone) = first
  cases context with
  | none => cases first <;> rfl
  | some context =>
    cases first <;> rfl

def addLine (l : LineTag × Body) (c : UpdateFileChunk) : UpdateFileChunk :=
  { c with
    oldLines := if l.1 ≠ .added then c.oldLines ++ [l.2.text] else c.oldLines
    newLines := if l.1 ≠ .removed then c.newLines ++ [l.2.text] else c.newLines }

theorem isBody_line (l : LineTag × Body) : Shape.isBody (l.1.char :: l.2.text) = true := by
  obtain ⟨tag, body⟩ := l
  cases tag <;> rfl

/-- A tagged line is recorded, whatever its text looks like. -/
theorem updateHunkLine_body (hchunks : lastChunkIsEndOfFile chunks = false) (l : LineTag × Body) :
    updateHunkLine path movePath chunks (l.1.char :: l.2.text) =
      .ok (.updateFile path movePath (recordLine (addLine l) chunks)) := by
  obtain ⟨hcontext, hmove, heof, -⟩ := isBody_not_marker (isBody_line l)
  unfold Shape.isContext at hcontext
  rw [not_or] at hcontext
  have hctx := stripStart_of_not_startsWith (Bool.eq_false_iff.2 hcontext.2)
  unfold updateHunkLine
  simp only [hchunks, hcontext, stripStart_of_not_startsWith hmove, hctx, heof, false_and, or_self, if_false,
    Bool.false_eq_true]
  generalize (chunks.isEmpty && movePath.isNone) = first
  obtain ⟨tag, body⟩ := l
  cases first <;> cases tag <;> rfl

theorem updateHunkLine_eof (hchunks : lastChunkIsEndOfFile chunks = false) (hne : lastChunkIsEmpty chunks = false) :
    updateHunkLine path movePath chunks eofMarker =
      .ok (.updateFile path movePath (modifyLastChunk ({ · with isEndOfFile := true }) chunks)) := by
  have htrim : trimEnd eofMarker = eofMarker := by decide
  have hcontext : eofMarker ≠ emptyChangeContextMarker ∧ startsWith eofMarker changeContextMarker = false := by decide
  have hmove : stripStart moveToMarker eofMarker = none := by decide
  have hctx : stripStart changeContextMarker eofMarker = none := by decide
  unfold updateHunkLine
  simp only [htrim, hchunks, hcontext, hmove, hctx, hne, false_and, or_self, if_false, if_true, Bool.false_eq_true]
  generalize (chunks.isEmpty && movePath.isNone) = first
  cases first <;> rfl

theorem updateHunkLine_move (dest : Name) :
    updateHunkLine path none [] (moveToMarker ++ dest.text) = .ok (.updateFile path (some dest.text) []) := by
  have htrim := (trim_marker (m := moveToMarker) (d := '*') (by decide) (by decide) dest).2
  unfold updateHunkLine
  simp only [htrim, stripStart_append]
  rfl

end

/-! ## Runs of lines -/

/-- Lines read from a state, and what is known of the state after them. -/
def Reads (p : StreamingPatchParser) (ls : List Text) (post : StreamingPatchParser → Prop) : Prop :=
  ∃ p', p.processLines ls = .ok p' ∧ post p'

variable {post post' : StreamingPatchParser → Prop}

theorem Reads.nil (h : post p) : p.Reads [] post := ⟨p, rfl, h⟩

theorem Reads.cons {l : Text} (hl : ∃ p', p.takeLine.processLine l = .ok p' ∧ p'.Reads ls post) :
    p.Reads (l :: ls) post := by
  obtain ⟨p₁, hp₁, p', hp', hpost⟩ := hl
  refine ⟨p', ?_, hpost⟩
  rw [processLines_cons, hp₁]
  exact hp'

theorem Reads.append {ls'} (h : p.Reads ls post) (h' : ∀ p', post p' → p'.Reads ls' post') :
    p.Reads (ls ++ ls') post' := by
  obtain ⟨p₁, hp₁, hpost⟩ := h
  obtain ⟨p', hp', hpost'⟩ := h' p₁ hpost
  refine ⟨p', ?_, hpost'⟩
  unfold processLines at hp₁ hp' ⊢
  rw [List.foldlM_append, hp₁]
  exact hp'

theorem Reads.mono (h : p.Reads ls post) (h' : ∀ p', post p' → post' p') : p.Reads ls post' := by
  obtain ⟨p', hp', hpost⟩ := h
  exact ⟨p', hp', h' p' hpost⟩

theorem reads_added {path : Text} (hs : p.state = ⟨.addFile, hunks ++ [.addFile path contents], env⟩)
    (ls : List Body) : p.Reads (ls.map fun l => '+' :: l.text) fun p' =>
      p'.state = ⟨.addFile, hunks ++ [.addFile path (contents ++ ls.flatMap fun l => l.text ++ ['\n'])], env⟩ := by
  induction ls generalizing p contents with
  | nil =>
    apply Reads.nil
    rw [List.flatMap_nil, List.append_nil]
    exact hs
  | cons l ls ih =>
    obtain ⟨p₁, hp₁, hs₁⟩ := processLine_added (p := p.takeLine) hs l.text
    apply Reads.cons
    refine ⟨p₁, hp₁, ?_⟩
    rw [List.flatMap_cons, ← List.append_assoc contents]
    exact ih hs₁

/-- The open update hunk, with the chunks so far. -/
def Updating (hunks : List Hunk) (env : Option Text) (path : Text) (movePath : Option Text) (chunks : List UpdateFileChunk)
    (p : StreamingPatchParser) : Prop :=
  ∃ n, p.state = ⟨.updateFile n, hunks ++ [.updateFile path movePath chunks], env⟩

section

variable {path : Text} {movePath movePath' : Option Text} {chunks chunks' : List UpdateFileChunk}

theorem Updating.cons {l : Text} (h : Updating hunks env path movePath chunks p)
    (hheader : Shape.header (trimEnd l) = none)
    (hline : updateHunkLine path movePath chunks l = .ok (.updateFile path movePath' chunks'))
    (hrest : ∀ p', Updating hunks env path movePath' chunks' p' → p'.Reads ls post) : p.Reads (l :: ls) post := by
  obtain ⟨n, hs⟩ := h
  obtain ⟨p', hp', hs'⟩ := processLine_update (p := p.takeLine) hs hheader hline
  exact Reads.cons ⟨p', hp', hrest p' ⟨n, hs'⟩⟩

theorem modifyLastChunk_concat (f : UpdateFileChunk → UpdateFileChunk) (c : UpdateFileChunk) :
    modifyLastChunk f (chunks ++ [c]) = chunks ++ [f c] := by
  unfold modifyLastChunk
  rw [List.getLast?_concat, List.dropLast_concat]

theorem recordLine_concat (f : UpdateFileChunk → UpdateFileChunk) (c : UpdateFileChunk) :
    recordLine f (chunks ++ [c]) = chunks ++ [f c] := by
  unfold recordLine
  rw [if_neg (by simp)]
  exact modifyLastChunk_concat f c

/-- The tagged lines of a chunk that is open already. -/
theorem reads_lines (chunks : List UpdateFileChunk) {c} (hc : c.isEndOfFile = false) (ls : List (LineTag × Body))
    (h : Updating hunks env path movePath (chunks ++ [c]) p) :
    p.Reads (ls.map fun l => l.1.char :: l.2.text)
      (Updating hunks env path movePath (chunks ++ [ls.foldl (fun c l => addLine l c) c])) := by
  induction ls generalizing p c with
  | nil => exact Reads.nil h
  | cons l ls ih =>
    have heof : lastChunkIsEndOfFile (chunks ++ [c]) = false := by
      unfold lastChunkIsEndOfFile
      rw [List.getLast?_concat]
      exact hc
    have hline := updateHunkLine_body path movePath heof l
    rw [recordLine_concat] at hline
    exact h.cons (isBody_not_marker (isBody_line l)).2.2.2 hline fun p' hp' => ih (c := addLine l c) hc hp'

/-- The first tagged line opens a chunk where there is none. -/
theorem reads_bareLines {ls} (hne : ls ≠ []) (h : Updating hunks env path movePath [] p) :
    p.Reads (ls.map fun l => l.1.char :: l.2.text)
      (Updating hunks env path movePath [ls.foldl (fun c l => addLine l c) (newChunk none)]) := by
  cases ls with
  | nil => exact absurd rfl hne
  | cons l ls =>
    have hline := @updateHunkLine_body path movePath [] rfl l
    exact h.cons (isBody_not_marker (isBody_line l)).2.2.2 hline fun p' hp' =>
      reads_lines [] (c := addLine l (newChunk none)) rfl ls hp'

theorem foldl_addLine (ls : List (LineTag × Body)) (c : UpdateFileChunk) :
    ls.foldl (fun c l => addLine l c) c =
      { c with
        oldLines := c.oldLines ++ (ls.filter fun l => l.1 ≠ .added).map (·.2.text)
        newLines := c.newLines ++ (ls.filter fun l => l.1 ≠ .removed).map (·.2.text) } := by
  induction ls generalizing c with
  | nil => simp
  | cons l ls ih =>
    rw [List.foldl_cons, ih]
    obtain ⟨tag, body⟩ := l
    cases tag <;> simp [addLine]

/-- Some line of a chunk is recorded on one side or the other. -/
theorem chunk_ne : (c.chunk.oldLines.isEmpty && c.chunk.newLines.isEmpty) = false := by
  obtain ⟨context, ls, hne, eof⟩ := c
  cases ls with
  | nil => exact absurd rfl hne
  | cons l ls =>
    obtain ⟨tag, body⟩ := l
    cases tag <;> simp [ChunkSource.chunk]

theorem lastChunkIsEmpty_chunk (chunks : List UpdateFileChunk) (c : ChunkSource) : lastChunkIsEmpty (chunks ++ [c.chunk]) = false := by
  unfold lastChunkIsEmpty
  rw [List.getLast?_concat]
  exact chunk_ne c

theorem reads_eof (chunks : List UpdateFileChunk) (c : ChunkSource)
    (h : Updating hunks env path movePath (chunks ++ [{ c.chunk with isEndOfFile := false }]) p) :
    p.Reads (if c.endOfFile then [eofMarker] else []) (Updating hunks env path movePath (chunks ++ [c.chunk])) := by
  cases heof : c.endOfFile with
  | false =>
    have hchunk : { c.chunk with isEndOfFile := false } = c.chunk := by
      unfold ChunkSource.chunk
      rw [heof]
    rw [hchunk] at h
    exact Reads.nil h
  | true =>
    have hchunk : { c.chunk with isEndOfFile := true } = c.chunk := by
      unfold ChunkSource.chunk
      rw [heof]
    have hlast : lastChunkIsEndOfFile (chunks ++ [{ c.chunk with isEndOfFile := false }]) = false := by
      unfold lastChunkIsEndOfFile
      rw [List.getLast?_concat]
      rfl
    have hne : lastChunkIsEmpty (chunks ++ [{ c.chunk with isEndOfFile := false }]) = false := by
      unfold lastChunkIsEmpty
      rw [List.getLast?_concat]
      exact chunk_ne c
    have hline := updateHunkLine_eof path movePath hlast hne
    rw [modifyLastChunk_concat] at hline
    rw [hchunk] at hline
    exact h.cons (by decide) hline fun p' hp' => Reads.nil hp'

theorem reads_chunk (hchunks : lastChunkIsEmpty chunks = false) (c : ChunkSource)
    (h : Updating hunks env path movePath chunks p) :
    p.Reads c.render (Updating hunks env path movePath (chunks ++ [c.chunk])) := by
  have hheader := header_contextLine c.changeContext
  rw [← trim_contextLine] at hheader
  refine h.cons hheader (updateHunkLine_context path movePath hchunks c.changeContext) fun p' hp' => ?_
  apply Reads.append (reads_lines chunks rfl c.lines hp')
  intro p'' hp''
  rw [foldl_addLine] at hp''
  exact reads_eof chunks c hp''

theorem reads_bareChunk (hcontext : c.changeContext = none) (h : Updating hunks env path movePath [] p) :
    p.Reads c.bodyLines (Updating hunks env path movePath [c.chunk]) := by
  apply Reads.append (reads_bareLines c.lines_ne h)
  intro p' hp'
  rw [foldl_addLine] at hp'
  apply reads_eof []
  unfold ChunkSource.chunk
  rw [hcontext]
  exact hp'

theorem reads_moreChunks (hchunks : lastChunkIsEmpty chunks = false) (cs : List ChunkSource)
    (h : Updating hunks env path movePath chunks p) :
    p.Reads (cs.flatMap (·.render)) (Updating hunks env path movePath (chunks ++ cs.map (·.chunk))) := by
  induction cs generalizing p chunks with
  | nil =>
    rw [List.map_nil, List.append_nil]
    exact Reads.nil h
  | cons c cs ih =>
    apply Reads.append (reads_chunk hchunks c h)
    intro p' hp'
    have := ih (lastChunkIsEmpty_chunk chunks c) hp'
    rw [List.append_assoc] at this
    exact this

theorem reads_chunks (bare : Bool) {cs} (hne : cs ≠ []) (h : Updating hunks env path movePath [] p) :
    p.Reads (renderChunks bare cs) (Updating hunks env path movePath (cs.map (·.chunk))) := by
  cases cs with
  | nil => exact absurd rfl hne
  | cons c cs =>
    have hfirst : p.Reads (if bare ∧ c.changeContext.isNone then c.bodyLines else c.render)
        (Updating hunks env path movePath [c.chunk]) := by
      split
      next hbare => exact reads_bareChunk c (Option.isNone_iff_eq_none.1 hbare.2) h
      next => exact @reads_chunk _ _ _ _ _ [] rfl c h
    exact Reads.append hfirst fun p' hp' =>
      @reads_moreChunks _ _ _ _ _ [c.chunk] (lastChunkIsEmpty_chunk [] c) cs hp'

theorem Updating.open (h : Updating hunks env path movePath chunks p) (hne : chunks ≠ [])
    (hlast : lastChunkIsEmpty chunks = false) : p.Open := by
  obtain ⟨n, hs⟩ := h
  have hcoh : p.state.Coherent := by
    rw [hs]
    unfold StreamingParserState.Coherent
    rw [List.getLast?_concat]
    trivial
  refine ⟨hcoh, ?_, by rw [hs]; exact nofun, by rw [hs]; exact nofun⟩
  have hshape : p.state.shape = updateShape movePath chunks := by
    rw [hs]
    unfold StreamingParserState.shape
    rw [List.getLast?_concat]
  rw [hshape]
  rw [lastChunkIsEmpty_eq] at hlast
  unfold updateShape Shape.closable
  rw [List.getLast?_eq_some_getLast hne] at hlast ⊢
  simpa using hlast

end

/-! ## Hunks -/

def After (p : StreamingPatchParser) (hunks : List Hunk) (p' : StreamingPatchParser) : Prop :=
  p'.Open ∧ p'.state.hunks = p.state.hunks ++ hunks ∧ p'.state.environmentId = p.state.environmentId

theorem lastChunkIsEmpty_map {cs : List ChunkSource} : lastChunkIsEmpty (cs.map (·.chunk)) = false := by
  obtain rfl | ⟨cs, c, rfl⟩ := List.eq_nil_or_concat cs
  · rfl
  · rw [List.concat_eq_append, List.map_append]
    exact lastChunkIsEmpty_chunk _ c

theorem open_addFile {path : Text} (hs : p.state = ⟨.addFile, hunks ++ [.addFile path contents], env⟩) : p.Open := by
  refine ⟨?_, ?_, by rw [hs]; exact nofun, by rw [hs]; exact nofun⟩
  · rw [hs]
    unfold StreamingParserState.Coherent
    rw [List.getLast?_concat]
    trivial
  · rw [hs]
    rfl

theorem open_deleteFile {path : Text} (hs : p.state = ⟨.deleteFile, hunks ++ [.deleteFile path], env⟩) : p.Open := by
  refine ⟨?_, ?_, by rw [hs]; exact nofun, by rw [hs]; exact nofun⟩
  · rw [hs]
    unfold StreamingParserState.Coherent
    rw [List.getLast?_concat]
    trivial
  · rw [hs]
    rfl

theorem reads_move {path : Text} (movePath : Option Name) (h : Updating hunks env path none [] p) :
    p.Reads (movePath.map fun path => moveToMarker ++ path.text).toList
      (Updating hunks env path (movePath.map (·.text)) []) := by
  cases movePath with
  | none => exact Reads.nil h
  | some dest =>
    have htrim := (trim_marker (m := moveToMarker) (d := '*') (by decide) (by decide) dest).2
    refine h.cons ?_ (updateHunkLine_move path dest) fun p' hp' => Reads.nil hp'
    have hend := append_ne_other (m := endPatchMarker) (a := moveToMarker) (by decide) (by decide) dest.text
    have hadd := stripStart_other (m := addFileMarker) (a := moveToMarker) (by decide) (by decide) dest.text
    have hdelete := stripStart_other (m := deleteFileMarker) (a := moveToMarker) (by decide) (by decide) dest.text
    have hupdate := stripStart_other (m := updateFileMarker) (a := moveToMarker) (by decide) (by decide) dest.text
    unfold Shape.header
    rw [htrim, if_neg hend, not_startsWith_of_stripStart hadd, not_startsWith_of_stripStart hdelete,
      not_startsWith_of_stripStart hupdate]
    rfl

/-- One hunk, read from a state that lets it begin. -/
theorem reads_hunk (h : p.Open) {source : HunkSource} (hsource : source.HasChunks) :
    p.Reads source.render (After p [source.hunk]) := by
  have hopen : p.takeLine.Open := ⟨h.coherent, h.closable, h.started, h.notEnded⟩
  cases source with
  | addFile path ls =>
    have hline := processLine_header hopen (trim_marker (d := '*') (by decide) (by decide) path) (handle_addFile hopen path)
    refine Reads.cons ⟨_, hline, ?_⟩
    apply (reads_added (p := p.takeLine.pushHunk (.addFile path.text []) .addFile) rfl ls).mono
    intro p' hs
    refine ⟨open_addFile hs, ?_, ?_⟩
    · rw [hs]
      rfl
    · rw [hs]
      rfl
  | deleteFile path =>
    have hline := processLine_header hopen (trim_marker (d := '*') (by decide) (by decide) path) (handle_deleteFile hopen path)
    exact Reads.cons ⟨_, hline, Reads.nil ⟨open_deleteFile rfl, rfl, rfl⟩⟩
  | updateFile path movePath bare chunks =>
    have hline := processLine_header hopen (trim_marker (d := '*') (by decide) (by decide) path) (handle_updateFile hopen path)
    refine Reads.cons ⟨_, hline, ?_⟩
    have hstart : Updating p.state.hunks p.state.environmentId path.text none []
        (p.takeLine.pushHunk (.updateFile path.text none []) (.updateFile p.takeLine.lineNumber)) := ⟨_, rfl⟩
    apply (Reads.append (reads_move movePath hstart) fun p' hp' => reads_chunks bare hsource hp').mono
    intro p' hp'
    refine ⟨hp'.open (mt List.map_eq_nil_iff.1 hsource) lastChunkIsEmpty_map, ?_, ?_⟩
    · obtain ⟨n, hs⟩ := hp'
      rw [hs]
      rfl
    · obtain ⟨n, hs⟩ := hp'
      rw [hs]

theorem reads_hunks (h : p.Open) {sources : List HunkSource} (hsources : ∀ source ∈ sources, source.HasChunks) :
    p.Reads (sources.flatMap (·.render)) (After p (sources.map (·.hunk))) := by
  induction sources generalizing p with
  | nil => exact Reads.nil ⟨h, (List.append_nil _).symm, rfl⟩
  | cons source sources ih =>
    obtain ⟨hsource, hrest⟩ := List.forall_mem_cons.1 hsources
    apply Reads.append (reads_hunk h hsource)
    intro p₁ ⟨hopen₁, hhunks₁, henv₁⟩
    apply (ih hopen₁ hrest).mono
    intro p' ⟨hopen', hhunks', henv'⟩
    refine ⟨hopen', ?_, henv'.trans henv₁⟩
    rw [hhunks', hhunks₁, List.append_assoc]
    rfl

/-- The environment id is read before the first hunk. -/
theorem reads_environmentId (hs : p.state = ⟨.startedPatch, [], none⟩) (id : Option Name) :
    p.Reads (id.map fun id => environmentIdMarker ++ ' ' :: id.text).toList fun p' =>
      p'.state = ⟨.startedPatch, [], id.map (·.text)⟩ := by
  cases id with
  | none => exact Reads.nil hs
  | some id =>
    have hline : environmentIdMarker ++ ' ' :: id.text = (environmentIdMarker ++ [' ']) ++ id.text := by
      rfl
    have htrim := (trim_marker (m := environmentIdMarker ++ [' ']) (d := '*') (by decide) (by decide) id).1
    rw [← hline] at htrim
    have hid : trim (' ' :: id.text) = id.text := id.trim
    have hm : p.takeLine.state.mode = .startedPatch := by
      change p.state.mode = _
      rw [hs]
    have hnoId : p.takeLine.state.environmentId = none := by
      change p.state.environmentId = _
      rw [hs]
    have hne : id.text.isEmpty = false := by
      rw [List.isEmpty_eq_false_iff]
      exact id.ne
    refine Reads.cons ⟨{ p.takeLine with state := { p.takeLine.state with environmentId := some id.text } }, ?_, Reads.nil ?_⟩
    · simp only [processLine, hm, htrim, handleHunkHeadersAndEndPatch, stripStart_append, hnoId, hid, hne, Option.isSome_none,
        if_false, Bool.false_eq_true]
      rfl
    · change ({ p.state with environmentId := some id.text } : StreamingParserState) = _
      rw [hs]
      rfl

/-- All lines of a patch but the last, read from a fresh parser. -/
theorem reads_patch (hsource : ∀ h ∈ source.hunks, h.HasChunks) :
    ({} : StreamingPatchParser).Reads (beginPatchMarker :: source.innerLines) fun p' =>
      p'.Open ∧ p'.state.hunks = source.hunks.map (·.hunk) ∧
        p'.state.environmentId = source.environmentId.map (·.text) := by
  refine Reads.cons ⟨({} : StreamingPatchParser).takeLine.setMode .startedPatch, ?_, ?_⟩
  · unfold processLine
    exact if_pos rfl
  · refine Reads.append (reads_environmentId rfl source.environmentId) fun p₁ hs₁ => ?_
    have hopen₁ : p₁.Open := by
      refine ⟨?_, ?_, by rw [hs₁]; exact nofun, by rw [hs₁]; exact nofun⟩
      · rw [hs₁]
        rfl
      · rw [hs₁]
        rfl
    apply (reads_hunks hopen₁ hsource).mono
    intro p' ⟨hopen, hhunks, henv⟩
    rw [hs₁] at hhunks henv
    exact ⟨hopen, hhunks, henv⟩

end StreamingPatchParser

/-! ## The text of a patch -/

/-- A line that survives being taken out of the text. -/
structure CleanLine (l : Text) : Prop where
  newline : '\n' ∉ l
  cr : l.getLast? ≠ some '\r'

theorem cleanLine_marker (hm : '\n' ∉ m) (n : Name) : CleanLine (m ++ n.text) where
  newline := by
    rw [List.mem_append, not_or]
    exact ⟨hm, n.newline⟩
  cr := by
    rw [List.getLast?_append_of_ne_nil _ n.ne]
    intro hc
    have := getLast?_of_trim_eq n.trim hc
    cases this

theorem cleanLine_tagged {c : Char} (hc : c ≠ '\n' ∧ c ≠ '\r') (b : Body) : CleanLine (c :: b.text) where
  newline := by
    rw [List.mem_cons, not_or]
    exact ⟨hc.1.symm, b.newline⟩
  cr := by
    cases h : b.text with
    | nil => simpa using hc.2
    | cons d t =>
      rw [List.getLast?_cons_cons, ← h]
      exact b.cr

theorem LineTag.char_ne (tag : LineTag) : tag.char ≠ '\n' ∧ tag.char ≠ '\r' := by
  cases tag <;> decide

theorem cleanLine_body : ∀ l ∈ c.bodyLines, CleanLine l := by
  intro l hl
  obtain hl | hl := List.mem_append.1 hl
  · obtain ⟨⟨tag, body⟩, -, rfl⟩ := List.mem_map.1 hl
    exact cleanLine_tagged (LineTag.char_ne tag) body
  · split at hl
    · rw [List.mem_singleton.1 hl]
      exact ⟨by decide, by decide⟩
    · cases hl

theorem cleanLine_chunk : ∀ l ∈ c.render, CleanLine l := by
  intro l hl
  obtain rfl | hl := List.mem_cons.1 hl
  · cases c.changeContext with
    | none => exact ⟨by decide, by decide⟩
    | some context => exact cleanLine_marker (by decide) context
  · exact cleanLine_body c l hl

theorem cleanLine_chunks (bare : Bool) (cs : List ChunkSource) : ∀ l ∈ renderChunks bare cs, CleanLine l := by
  intro l hl
  cases cs with
  | nil => cases hl
  | cons c cs =>
    obtain hl | hl := List.mem_append.1 hl
    · split at hl
      · exact cleanLine_body c l hl
      · exact cleanLine_chunk c l hl
    · obtain ⟨c', -, hl⟩ := List.mem_flatMap.1 hl
      exact cleanLine_chunk c' l hl

theorem cleanLine_hunk (h : HunkSource) : ∀ l ∈ h.render, CleanLine l := by
  intro l hl
  cases h with
  | addFile path ls =>
    obtain rfl | hl := List.mem_cons.1 hl
    · exact cleanLine_marker (by decide) path
    · obtain ⟨b, -, rfl⟩ := List.mem_map.1 hl
      exact cleanLine_tagged (by decide) b
  | deleteFile path =>
    rw [List.mem_singleton.1 hl]
    exact cleanLine_marker (by decide) path
  | updateFile path movePath bare chunks =>
    obtain rfl | hl := List.mem_cons.1 hl
    · exact cleanLine_marker (by decide) path
    · obtain hl | hl := List.mem_append.1 hl
      · obtain ⟨dest, -, rfl⟩ := Option.map_eq_some_iff.1 (Option.mem_toList.1 hl)
        exact cleanLine_marker (by decide) dest
      · exact cleanLine_chunks bare chunks l hl

theorem cleanLine_inner : ∀ l ∈ source.innerLines, CleanLine l := by
  intro l hl
  obtain hl | hl := List.mem_append.1 hl
  · obtain ⟨id, -, rfl⟩ := Option.map_eq_some_iff.1 (Option.mem_toList.1 hl)
    have := cleanLine_marker (m := environmentIdMarker ++ [' ']) (by decide) id
    exact this
  · obtain ⟨h, -, hl⟩ := List.mem_flatMap.1 hl
    exact cleanLine_hunk h l hl

theorem stripCr_cleanLines (h : ∀ l ∈ ls, CleanLine l) :
    ls.map stripCr = ls ∧ (ls.map fun l => stripCr (stripCr l)) = ls := by
  have hstrip : ∀ l ∈ ls, stripCr l = l := fun l hl => stripCr_of_not_cr (h l hl).cr
  constructor
  · exact (List.map_congr_left hstrip).trans (List.map_id' ls)
  · refine (List.map_congr_left ?_).trans (List.map_id' ls)
    intro l hl
    rw [hstrip l hl, hstrip l hl]

/-- The text without its last newline, and the lines it is taken apart into. -/
theorem trim_render (finalNewline : Bool) :
    let body := joinLines (beginPatchMarker :: source.innerLines ++ [endPatchMarker])
    trim (source.render finalNewline) = body ∧ trim body = body ∧
      splitNewlines body = (beginPatchMarker :: source.innerLines, endPatchMarker) := by
  intro body
  have hsplit : splitNewlines body = (beginPatchMarker :: source.innerLines, endPatchMarker) := by
    apply splitNewlines_joinLines
    · intro l hl
      obtain rfl | hl := List.mem_cons.1 hl
      · decide
      · exact (cleanLine_inner source l hl).newline
    · decide
  have hbody := splitNewlines_flatten body
  rw [hsplit] at hbody
  dsimp only at hbody
  have hhead : body.head? = some '*' := by
    rw [← hbody]
    rfl
  have hlast : body.getLast? = some 'h' := by
    rw [← hbody, List.getLast?_append_of_ne_nil _ (by decide)]
    decide
  have hblank : isWhitespace '*' = false ∧ isWhitespace 'h' = false := by decide
  have htrim : trim body = body ∧ trimEnd body = body := by
    apply trim_eq_self
    · intro c hc
      rw [← Option.some.inj (hhead.symm.trans hc)]
      exact hblank.1
    · intro c hc
      rw [← Option.some.inj (hlast.symm.trans hc)]
      exact hblank.2
  refine ⟨?_, htrim.1, hsplit⟩
  change trim (body ++ if finalNewline then ['\n'] else []) = body
  cases finalNewline with
  | false =>
    rw [if_neg Bool.false_ne_true, List.append_nil]
    exact htrim.1
  | true =>
    rw [if_pos rfl]
    have hstart : trimStart (body ++ ['\n']) = body ++ ['\n'] := by
      obtain ⟨t, ht⟩ := List.head?_eq_some_iff.1 hhead
      unfold trimStart
      rw [ht, List.cons_append, List.dropWhile_cons_of_neg (by decide)]
    unfold trim
    rw [hstart]
    exact (List.rdropWhile_concat_pos _ _ _ (by decide)).trans htrim.2

/-- **Parser completeness.** -/
theorem parsePatch_render (source : PatchSource) (finalNewline : Bool) (hsource : ∀ h ∈ source.hunks, h.HasChunks) :
    ∃ args, parsePatch (source.render finalNewline) = .ok args ∧
      args.hunks = source.hunks.map (·.hunk) ∧ args.environmentId = source.environmentId.map (·.text) := by
  obtain ⟨htext, htrim, hsplit⟩ := trim_render source finalNewline
  generalize hbody : joinLines (beginPatchMarker :: source.innerLines ++ [endPatchMarker]) = body at htext htrim hsplit
  have hclean : ∀ l ∈ beginPatchMarker :: source.innerLines, CleanLine l := by
    intro l hl
    obtain rfl | hl := List.mem_cons.1 hl
    · exact ⟨by decide, by decide⟩
    · exact cleanLine_inner source l hl
  obtain ⟨hstrip, hstrip'⟩ := stripCr_cleanLines hclean
  have hparse : parsePatch (source.render finalNewline) = parsePatch body := by
    unfold parsePatch parsePatchText
    rw [htext, htrim]
  have hlines : lines body = beginPatchMarker :: source.innerLines ++ [endPatchMarker] := by
    unfold lines
    rw [hsplit]
    dsimp only
    rw [hstrip]
    rfl
  have hdoc : isHeredoc (lines body) = false := by
    rw [hlines]
    rfl
  have hdriver := parsePatch_eq_driver htrim hdoc
  rw [hsplit] at hdriver
  dsimp only at hdriver
  rw [if_neg (List.cons_ne_nil _ _), hstrip', driver_eq (by decide)] at hdriver
  obtain ⟨p', hp', hopen, hhunks, henv⟩ := StreamingPatchParser.reads_patch source hsource
  rw [hp'] at hdriver
  have hend : trim endPatchMarker = endPatchMarker := by decide
  change _ = ite _ _ _ at hdriver
  rw [if_pos ⟨hend, hopen.closable⟩, hhunks, henv] at hdriver
  rw [hparse]
  cases hargs : parsePatch body with
  | error e =>
    rw [hargs] at hdriver
    cases hdriver
  | ok args =>
    rw [hargs] at hdriver
    have heq := Option.some.inj hdriver
    exact ⟨args, rfl, congrArg Prod.fst heq, congrArg Prod.snd heq⟩

def fileA : Name := ⟨"src/a.rs".toList, by decide, by decide, by decide⟩

/-- Lines that look like markers once their tags are gone. -/
def markersInside : PatchSource where
  environmentId := some ⟨"remote".toList, by decide, by decide, by decide⟩
  hunks :=
    [.updateFile fileA none true
      [{ changeContext := none
         lines := [(.added, ⟨endPatchMarker, by decide, by decide⟩), (.context, ⟨[], by decide, by decide⟩)]
         lines_ne := by decide
         endOfFile := true },
       { changeContext := some ⟨"@@".toList, by decide, by decide, by decide⟩
         lines := [(.removed, ⟨eofMarker, by decide, by decide⟩)]
         lines_ne := by decide
         endOfFile := false }]]

theorem parsePatch_render_markersInside :
    ∃ args, parsePatch (markersInside.render true) = .ok args ∧
      args.hunks = markersInside.hunks.map (·.hunk) ∧ args.environmentId = markersInside.environmentId.map (·.text) := by
  apply parsePatch_render markersInside true
  intro h hh
  rw [List.mem_singleton.1 hh]
  exact List.cons_ne_nil _ _

def noChunks : PatchSource where
  environmentId := none
  hunks := [.updateFile fileA none false []]

/-- An update hunk that changes nothing is refused. -/
theorem parsePatch_render_noChunks :
    parsePatch (noChunks.render true) =
      .error (.invalidHunkError "Update file hunk for path 'src/a.rs' is empty" 2) := by decide

end Codex.Patch
