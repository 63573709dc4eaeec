/-
What the line parser reads against a text taken line by line
(`utils/stream-parser/src/tagged_line_parser.rs`). The parser lets go of a line as soon as it
cannot be a tag any more, and that is never too soon: `parseChunks_same` has its segments as the
classification of the whole lines, however the text is cut.

The code's rule looks a closing text up in all the specs and asks for the active tag; the
reference (`readLines`) knows which spec opened the block.
-/
import Codex.PolicyFile
import Codex.StreamTextFacts

namespace Codex.StreamText

open Text
open PolicyFile (splitInclusive)
open MergeAdjacent

variable {T : Type}

/-! ## Line by line -/

/-- The line without its newline. -/
def content (line : Text) : Text := if line.getLast? = some '\n' then line.dropLast else line

/-- What a line is outside a block and in a block of `active`, and the block after it. -/
def readLine (specs : List (TagSpec T)) (active : Option (TagSpec T)) (line : Text) :
    TaggedLineSegment T × Option (TagSpec T) :=
  let slug := trim (content line)
  match active with
  | none =>
    match specs.find? fun spec => spec.opening = slug with
    | some spec => (.tagStart spec.tag, some spec)
    | none => (.normal line, none)
  | some spec => if slug = spec.close then (.tagEnd spec.tag, none) else (.tagDelta spec.tag line, some spec)

variable (specs : List (TagSpec T)) {p : TaggedLineParser T} (k : Option T) {body : Text}
  {active : Option (TagSpec T)}

theorem readLine_outside (line : Text) : readLine specs none line =
    match specs.find? fun spec => spec.opening = trim (content line) with
    | some spec => (.tagStart spec.tag, some spec)
    | none => (.normal line, none) := rfl

theorem readLine_block (block : TagSpec T) (line : Text) : readLine specs (some block) line =
    if trim (content line) = block.close then (.tagEnd block.tag, none) else (.tagDelta block.tag line, some block) := rfl

/-- A block still open ends with the text. -/
def readLines (specs : List (TagSpec T)) (active : Option (TagSpec T)) : List Text → List (TaggedLineSegment T)
  | [] => (active.map fun spec => .tagEnd spec.tag).toList
  | line :: lines => (readLine specs active line).1 :: readLines specs (readLine specs active line).2 lines

def segmentText : TaggedLineSegment T → Text
  | .normal text => text
  | .tagDelta _ text => text
  | _ => []

def isText : TaggedLineSegment T → Bool
  | .normal _ => true
  | .tagDelta _ _ => true
  | _ => false

def textLines (specs : List (TagSpec T)) (active : Option (TagSpec T)) : List Text → List Text
  | [] => []
  | line :: lines =>
    (if isText (readLine specs active line).1 then [line] else []) ++ textLines specs (readLine specs active line).2 lines

theorem readLine_text (active : Option (TagSpec T)) (line : Text) :
    segmentText (readLine specs active line).1 = (if isText (readLine specs active line).1 then [line] else []).flatten := by
  cases active with
  | none =>
    rw [readLine_outside]
    split
    · rfl
    · simp [isText, segmentText]
  | some block =>
    rw [readLine_block]
    split
    · rfl
    · simp [isText, segmentText]

/-- No character of the other lines is lost. -/
theorem readLines_text (active : Option (TagSpec T)) (lines : List Text) :
    (readLines specs active lines).flatMap segmentText = (textLines specs active lines).flatten := by
  induction lines generalizing active with
  | nil => cases active <;> rfl
  | cons line lines ih =>
    rw [readLines, textLines, List.flatMap_cons, List.flatten_append, ih, readLine_text]

/-- In a block, the first spec whose closing text the line is has the block's tag just where the text is the block's. -/
def ClosesByTag (specs : List (TagSpec T)) (active : Option (TagSpec T)) : List Text → Prop
  | [] => True
  | line :: lines =>
    (∀ block ∈ active, (specs.find? fun spec => spec.close = trim (content line)).map (·.tag) = some block.tag ↔
      trim (content line) = block.close) ∧
    ClosesByTag specs (readLine specs active line).2 lines

namespace TaggedLineParser

/-! ## Lines that can be no tags -/

theorem trimEnd_prefix (a b : Text) : trimEnd a <+: trimEnd (a ++ b) := by
  unfold trimEnd List.rdropWhile
  rw [List.reverse_append, List.dropWhile_append]
  split
  · exact List.prefix_rfl
  · rw [List.reverse_append, List.reverse_reverse]
    exact (List.rdropWhile_prefix isWhitespace a).trans (List.prefix_append ..)

theorem trimStart_append {a : Text} (h : trimStart a ≠ []) (b : Text) : trimStart (a ++ b) = trimStart a ++ b := by
  unfold trimStart at *
  rw [List.dropWhile_append, if_neg (by simpa using h)]

theorem not_tag_of_start {specs : List (TagSpec T)} {start : Text} (hne : trimStart start ≠ [])
    (h : ¬ isTagStart specs (trimStart start) = true) (rest : Text) :
    matchOpen specs (trim (start ++ rest)) = none ∧ matchClose specs (trim (start ++ rest)) = none := by
  have hstart : trimEnd (trimStart start) <+: trim (start ++ rest) := by
    rw [trim, trimStart_append hne]
    exact trimEnd_prefix ..
  have hno : ∀ spec ∈ specs, ¬ spec.opening = trim (start ++ rest) ∧ ¬ spec.close = trim (start ++ rest) := by
    intro spec hspec
    constructor
    · intro hopen
      refine h (List.any_eq_true.2 ⟨spec, hspec, ?_⟩)
      rw [hopen, Bool.or_eq_true]
      exact .inl (List.isPrefixOf_iff_prefix.2 hstart)
    · intro hclose
      refine h (List.any_eq_true.2 ⟨spec, hspec, ?_⟩)
      rw [hclose, Bool.or_eq_true]
      exact .inr (List.isPrefixOf_iff_prefix.2 hstart)
  unfold matchOpen matchClose
  rw [List.find?_eq_none.2 fun spec hspec => by simpa using (hno spec hspec).1,
    List.find?_eq_none.2 fun spec hspec => by simpa using (hno spec hspec).2]
  exact ⟨rfl, rfl⟩

variable [DecidableEq T]

/-- Chunks parsed one after the other, and the end. -/
def parseChunks (p : TaggedLineParser T) : List Text → List (TaggedLineSegment T)
  | [] => p.finish.2
  | chunk :: chunks => (p.parse chunk).2 ++ (p.parse chunk).1.parseChunks chunks

theorem classifyLine_content (p : TaggedLineParser T) (line : Text) : p.classifyLine line =
    match matchOpen p.specs (trim (content line)), p.activeTag with
    | some tag, none => (.tagStart tag, some tag)
    | _, active => match matchClose p.specs (trim (content line)) with
      | some tag => if active = some tag then (.tagEnd tag, none) else (textSegment active line, active)
      | none => (textSegment active line, active) := rfl

theorem classifyLine_of_start {start rest line : Text} (hne : trimStart start ≠ [])
    (h : ¬ isTagStart p.specs (trimStart start) = true) (hline : content line = start ++ rest) :
    p.classifyLine line = (textSegment p.activeTag line, p.activeTag) := by
  obtain ⟨hopen, hclose⟩ := not_tag_of_start hne h rest
  rw [← hline] at hopen hclose
  rw [classifyLine_content, hopen, hclose]

/-! ## The characters of a line -/

theorem same_pieces (front text : Text) :
    Same joinSegments (textSegment k front :: text.map fun ch => textSegment k [ch]) [textSegment k (front ++ text)] := by
  induction text generalizing front with
  | nil =>
    rw [List.append_nil]
    exact Same.refl
  | cons ch text ih =>
    have hjoin := Same.append joinSegments_associative (Same.pair (joinSegments_textSegment k front [ch]))
      (Same.refl (l := text.map fun ch => textSegment k [ch]))
    refine hjoin.trans ?_
    have hrest := ih (front ++ [ch])
    rw [List.append_assoc] at hrest
    exact hrest

theorem stepChars_rest (hp : p.detectTag = false) {text : Text} (h : '\n' ∉ text) :
    p.stepChars text = (p, text.map fun ch => textSegment p.activeTag [ch]) := by
  induction text with
  | nil => rfl
  | cons ch text ih =>
    have hch : ch ≠ '\n' := fun heq => h (List.mem_cons.2 (.inl heq.symm))
    rw [stepChars, stepChar, if_neg (by rw [hp]; exact Bool.false_ne_true), if_neg hch]
    dsimp only
    rw [ih fun hmem => h (List.mem_cons_of_mem ch hmem)]
    rfl

/-- A line so far: all of it is held back, or it has begun with what is no start of a tag and is let go of. -/
theorem stepChars_body (hp : p.detectTag = true) (h : '\n' ∉ body) :
    p.stepChars body = ({ p with lineBuffer := p.lineBuffer ++ body }, []) ∨
    ∃ segments, p.stepChars body = ({ p with lineBuffer := [], detectTag := false }, segments) ∧
      Same joinSegments segments [textSegment p.activeTag (p.lineBuffer ++ body)] ∧
      ∃ start rest, p.lineBuffer ++ body = start ++ rest ∧ trimStart start ≠ [] ∧
        ¬ isTagStart p.specs (trimStart start) = true := by
  induction body generalizing p with
  | nil =>
    refine .inl ?_
    rw [List.append_nil]
    rfl
  | cons ch body ih =>
    have hch : ch ≠ '\n' := fun heq => h (List.mem_cons.2 (.inl heq.symm))
    have hbody : '\n' ∉ body := fun hmem => h (List.mem_cons_of_mem ch hmem)
    have happend : p.lineBuffer ++ [ch] ++ body = p.lineBuffer ++ ch :: body := by simp
    rw [stepChars, stepChar, if_pos hp, if_neg hch]
    dsimp only
    split
    next =>
      have hrest := @ih { p with lineBuffer := p.lineBuffer ++ [ch] } hp hbody
      rw [happend] at hrest
      rcases hrest with hheld | ⟨segments, hstep, hfacts⟩
      · rw [hheld]
        exact .inl rfl
      · rw [hstep]
        exact .inr ⟨segments, rfl, hfacts⟩
    next hstart =>
      obtain ⟨hne, htag⟩ := not_or.1 hstart
      rw [stepChars_rest rfl hbody]
      refine .inr ⟨_, rfl, ?_, p.lineBuffer ++ [ch], body, happend.symm, hne, htag⟩
      rw [← happend]
      exact same_pieces p.activeTag (p.lineBuffer ++ [ch]) body

/-! ## Whole lines -/

def atLine (specs : List (TagSpec T)) (activeTag : Option T) : TaggedLineParser T := { specs, activeTag }

theorem content_line (h : '\n' ∉ body) : content (body ++ ['\n']) = body ∧ content body = body := by
  unfold content
  rw [List.getLast?_concat, if_pos rfl, List.dropLast_concat, if_neg]
  · exact ⟨rfl, rfl⟩
  · exact fun hlast => h (List.mem_of_getLast? hlast)

/-- **A line is let go of as what the whole of it is.** -/
theorem stepChars_line (h : '\n' ∉ body) : ((atLine specs k).stepChars (body ++ ['\n'])).1 =
        atLine specs ((atLine specs k).classifyLine (body ++ ['\n'])).2 ∧
      Same joinSegments ((atLine specs k).stepChars (body ++ ['\n'])).2
        [((atLine specs k).classifyLine (body ++ ['\n'])).1] := by
  rw [stepChars_append]
  rcases stepChars_body (p := atLine specs k) rfl h with hheld | ⟨segments, hstep, hsame, start, rest, hbody, hne, htag⟩
  · rw [hheld]
    exact ⟨rfl, Same.refl⟩
  · have hline := classifyLine_of_start hne htag ((content_line h).1.trans hbody)
    rw [hstep, hline]
    refine ⟨rfl, ?_⟩
    have hjoin := Same.pair (joinSegments_textSegment (T := T) k body ['\n'])
    exact (Same.append joinSegments_associative hsame (Same.refl (l := [textSegment k ['\n']]))).trans hjoin

def classifyLines (specs : List (TagSpec T)) (active : Option T) : List Text → List (TaggedLineSegment T)
  | [] => (active.map .tagEnd).toList
  | line :: lines =>
    ((atLine specs active).classifyLine line).1 :: classifyLines specs ((atLine specs active).classifyLine line).2 lines

/-- The end of a text, with a line that has no newline or at a line's start. -/
theorem finish_same (h : '\n' ∉ body) :
    Same joinSegments (((atLine specs k).stepChars body).2 ++ ((atLine specs k).stepChars body).1.finish.2)
      (classifyLines specs k (if body = [] then [] else [body])) := by
  have hclose : ∀ (segments : List (TaggedLineSegment T)) (active : Option T),
      Same joinSegments (match active with
        | some tag => pushSegment segments (.tagEnd tag)
        | none => segments) (segments ++ (active.map .tagEnd).toList) := by
    intro segments active
    cases active with
    | none =>
      rw [Option.map_none, Option.toList_none, List.append_nil]
      exact Same.refl
    | some tag => exact pushSegment_same segments rfl
  by_cases hnil : body = []
  · rw [hnil, if_pos rfl]
    exact hclose [] k
  rw [if_neg hnil]
  rcases stepChars_body (p := atLine specs k) rfl h with hheld | ⟨segments, hstep, hsame, start, rest, hbody, hne, htag⟩
  · rw [hheld]
    unfold finish
    rw [show (atLine specs k).lineBuffer ++ body = body from rfl, if_pos hnil]
    have hline := pushSegment_same [] (isEmptyDelta_classifyLine (atLine specs k) hnil)
    exact (hclose _ _).trans (Same.append joinSegments_associative hline Same.refl)
  · have hline := classifyLine_of_start hne htag ((content_line h).2.trans hbody)
    rw [hstep, classifyLines, hline]
    exact Same.append joinSegments_associative hsame (hclose [] k)

theorem stepChars_lines {bodies : List Text} (h : ∀ body ∈ bodies, '\n' ∉ body)
    {rest : Text} (hrest : '\n' ∉ rest) :
    Same joinSegments
      (((atLine specs k).stepChars ((bodies.map (· ++ ['\n'])).flatten ++ rest)).2 ++
        ((atLine specs k).stepChars ((bodies.map (· ++ ['\n'])).flatten ++ rest)).1.finish.2)
      (classifyLines specs k (bodies.map (· ++ ['\n']) ++ if rest = [] then [] else [rest])) := by
  induction bodies generalizing k with
  | nil => exact finish_same specs k hrest
  | cons body bodies ih =>
    obtain ⟨hparser, hsegments⟩ := stepChars_line specs k (h body List.mem_cons_self)
    rw [List.map_cons, List.flatten_cons, List.append_assoc, stepChars_append, hparser, List.append_assoc]
    exact Same.append joinSegments_associative hsegments (ih _ fun body hbody => h body (List.mem_cons_of_mem _ hbody))

theorem parseChunks_stepChars (p : TaggedLineParser T) (chunks : List Text) :
    Same joinSegments (p.parseChunks chunks) ((p.stepChars chunks.flatten).2 ++ (p.stepChars chunks.flatten).1.finish.2) := by
  induction chunks generalizing p with
  | nil => exact Same.refl
  | cons chunk chunks ih =>
    obtain ⟨hparser, hsegments⟩ := p.parse_same chunk
    rw [parseChunks, List.flatten_cons, stepChars_append, hparser, List.append_assoc]
    exact Same.append joinSegments_associative hsegments (ih _)

/-- **The parser classifies whole lines**, however the text is cut. -/
theorem parseChunks_same (chunks : List Text) :
    Same joinSegments (parseChunks { specs } chunks) (classifyLines specs none (splitInclusive chunks.flatten)) := by
  refine (parseChunks_stepChars _ chunks).trans ?_
  have hlines := splitNewlines_no_newline chunks.flatten
  have hrun := stepChars_lines specs none hlines.1 hlines.2
  rw [splitNewlines_flatten] at hrun
  exact hrun

/-! ## Against the reference -/

theorem classifyLine_block (block : TagSpec T) (line : Text) :
    (atLine specs (some block.tag)).classifyLine line =
      if (specs.find? fun spec => spec.close = trim (content line)).map (·.tag) = some block.tag then (.tagEnd block.tag, none)
      else (.tagDelta block.tag line, some block.tag) := by
  rw [classifyLine_content]
  unfold atLine
  unfold matchClose
  cases (specs.find? fun spec => spec.close = trim (content line)).map (·.tag) with
  | none => cases matchOpen specs (trim (content line)) <;> rfl
  | some tag =>
    by_cases htag : tag = block.tag
    · subst htag
      cases matchOpen specs (trim (content line)) <;> simp
    · have hne : ¬ some block.tag = some tag := fun h => htag (Option.some.inj h).symm
      rw [if_neg fun h => htag (Option.some.inj h)]
      cases matchOpen specs (trim (content line)) <;> simp only [if_neg hne] <;> rfl

/-- Outside a block the two agree. -/
theorem classifyLine_outside (line : Text) :
    (atLine specs none).classifyLine line = ((readLine specs none line).1, (readLine specs none line).2.map (·.tag)) := by
  rw [classifyLine_content, readLine_outside]
  unfold atLine
  unfold matchOpen
  cases specs.find? fun spec => spec.opening = trim (content line) with
  | some spec => rfl
  | none => cases matchClose specs (trim (content line)) <;> rfl

theorem classifyLine_eq {specs} {line : Text}
    (h : ∀ block ∈ active, (specs.find? fun spec => spec.close = trim (content line)).map (·.tag) = some block.tag ↔
      trim (content line) = block.close) :
    (atLine specs (active.map (·.tag))).classifyLine line =
      ((readLine specs active line).1, (readLine specs active line).2.map (·.tag)) := by
  cases active with
  | none => exact classifyLine_outside specs line
  | some block =>
    have hblock := h block rfl
    rw [Option.map_some, classifyLine_block, readLine_block]
    by_cases hclose : trim (content line) = block.close
    · rw [if_pos (hblock.2 hclose), if_pos hclose]
      rfl
    · rw [if_neg (mt hblock.1 hclose), if_neg hclose]
      rfl

theorem classifyLines_eq {specs lines} (h : ClosesByTag specs active lines) :
    classifyLines specs (active.map (·.tag)) lines = readLines specs active lines := by
  induction lines generalizing active with
  | nil => cases active <;> rfl
  | cons line lines ih => rw [classifyLines, readLines, classifyLine_eq h.1, ih h.2]

/-- The segments of single characters, and the tags. -/
def tokens : TaggedLineSegment T → List (TaggedLineSegment T)
  | .normal text => text.map fun ch => .normal [ch]
  | .tagDelta tag text => text.map fun ch => .tagDelta tag [ch]
  | segment => [segment]

theorem tokens_join (a b ab : TaggedLineSegment T) (h : joinSegments a b = some ab) : tokens ab = tokens a ++ tokens b := by
  obtain ⟨k, x, y, rfl, rfl, rfl⟩ := joinSegments_eq_some h
  cases k <;> exact List.map_append

theorem segmentText_join (a b ab : TaggedLineSegment T) (h : joinSegments a b = some ab) :
    segmentText ab = segmentText a ++ segmentText b := by
  obtain ⟨k, x, y, rfl, rfl, rfl⟩ := joinSegments_eq_some h
  cases k <;> rfl

/-- Read the same, the lines are closed by tag: a tag at a line that the other reads as text would show. -/
theorem closesByTag_of_tokens {specs lines} (hne : ∀ line ∈ lines, line ≠ [])
    (h : (classifyLines specs (active.map (·.tag)) lines).flatMap tokens = (readLines specs active lines).flatMap tokens) :
    ClosesByTag specs active lines := by
  induction lines generalizing active with
  | nil => trivial
  | cons line lines ih =>
    have hblock : ∀ block ∈ active, (specs.find? fun spec => spec.close = trim (content line)).map (·.tag) = some block.tag ↔
        trim (content line) = block.close := by
      intro block hblock
      cases hblock
      obtain ⟨ch, line, rfl⟩ := List.exists_cons_of_ne_nil (hne line List.mem_cons_self)
      rw [classifyLines, readLines, Option.map_some, classifyLine_block, readLine_block] at h
      by_cases htag : (specs.find? fun spec => spec.close = trim (content (ch :: line))).map (·.tag) = some block.tag
      · refine iff_of_true htag ?_
        by_contra hclose
        rw [if_pos htag, if_neg hclose] at h
        cases h
      · refine iff_of_false htag fun hclose => ?_
        rw [if_neg htag, if_pos hclose] at h
        cases h
    refine ⟨hblock, ih (fun line hline => hne line (List.mem_cons_of_mem _ hline)) ?_⟩
    rw [classifyLines, readLines, classifyLine_eq hblock, List.flatMap_cons, List.flatMap_cons] at h
    exact List.append_cancel_left h

theorem splitInclusive_ne_nil {text line : Text} (h : line ∈ splitInclusive text) : line ≠ [] := by
  rcases List.mem_append.1 h with hline | hrest
  · obtain ⟨body, -, rfl⟩ := List.mem_map.1 hline
    exact List.append_ne_nil_of_right_ne_nil body (List.cons_ne_nil _ _)
  · split at hrest
    · cases hrest
    next hne =>
      rw [List.mem_singleton.1 hrest]
      exact hne

/-- **Tags on lines of their own**: the segments are those of the text read line by line exactly when in its blocks a
line closes by its tag just where it closes by its text. -/
theorem taggedLines_iff (specs : List (TagSpec T)) (chunks : List Text) :
    (merge joinSegments (parseChunks { specs } chunks) =
        merge joinSegments (readLines specs none (splitInclusive chunks.flatten)) ∧
      (parseChunks { specs } chunks).flatMap segmentText =
        (textLines specs none (splitInclusive chunks.flatten)).flatten) ↔
    ClosesByTag specs none (splitInclusive chunks.flatten) := by
  have hparse := parseChunks_same specs chunks
  constructor
  · rintro ⟨hmerge, -⟩
    have hsame : Same joinSegments _ _ := hparse.symm.trans hmerge
    exact closesByTag_of_tokens (fun line => splitInclusive_ne_nil) (hsame.flatMap_eq tokens_join)
  · intro h
    have heq := classifyLines_eq h
    rw [Option.map_none] at heq
    rw [heq] at hparse
    exact ⟨hparse, (hparse.flatMap_eq segmentText_join).trans (readLines_text specs none _)⟩

end TaggedLineParser

/-- Two tags with one closing text. -/
def sharedClose : List (TagSpec Bool) :=
  [{ opening := "<a>".toList, close := "</x>".toList, tag := false },
    { opening := "<b>".toList, close := "</x>".toList, tag := true }]

/-- The closing text is the first tag's, so that it stays in the block of the second. -/
theorem not_taggedLines_sharedClose :
    let segments := merge TaggedLineParser.joinSegments
      (TaggedLineParser.parseChunks { specs := sharedClose } ["<b>\n</x>\n".toList])
    let reference := merge TaggedLineParser.joinSegments (readLines sharedClose none (splitInclusive "<b>\n</x>\n".toList))
    segments = [.tagStart true, .tagDelta true "</x>\n".toList, .tagEnd true] ∧ reference = [.tagStart true, .tagEnd true] ∧
      segments ≠ reference := by
  decide

end Codex.StreamText
