/-
Assistant text as it streams in (`utils/stream-parser`). Two parsers are
stacked: the first strips inline tags found anywhere in the text
(`InlineHiddenTagParser`, of which citations are the one use), the second
strips tags that stand alone on a line (`TaggedLineParser`, of which the
proposed plan is the one use). Both hold back what may turn out to be a tag.

Texts are lists of characters, not bytes: a delimiter begins and ends at
character boundaries, so what `str` finds by bytes is found by characters.
-/
import Codex.Text
import Codex.Lib.LiteralSearch

namespace Codex.StreamText

open Text

structure StreamTextChunk (E : Type) where
  visibleText : Text := []
  extracted : List E := []
  deriving DecidableEq, Repr

/-! ## Inline tags -/

structure ExtractedInlineTag (T : Type) where
  tag : T
  content : Text
  deriving DecidableEq, Repr

/-- `new` asserts that no delimiter is empty. -/
structure InlineTagSpec (T : Type) where
  tag : T
  opening : Text
  close : Text
  opening_ne : opening ≠ []
  close_ne : close ≠ []

structure ActiveTag (T : Type) where
  tag : T
  close : Text
  content : Text
  close_ne : close ≠ []

structure InlineHiddenTagParser (T : Type) where
  specs : List (InlineTagSpec T)
  pending : Text := []
  active : Option (ActiveTag T) := none

namespace InlineHiddenTagParser

variable {T : Type}

/-- Of two openings found the earlier, of two at one place the longer. -/
def takesOver (other candidate : Nat × InlineTagSpec T) : Bool :=
  other.1 < candidate.1 || (other.1 == candidate.1 && candidate.2.opening.length < other.2.opening.length)

def pickOpen (candidate : Nat × InlineTagSpec T) (best : Option (Nat × InlineTagSpec T)) : Option (Nat × InlineTagSpec T) :=
  match best with
  | some other => if takesOver other candidate then some other else some candidate
  | none => some candidate

/-- `min_by` over the openings found; of equal ones the first. -/
def findNextOpen (specs : List (InlineTagSpec T)) (pending : Text) : Option (Nat × InlineTagSpec T) :=
  (specs.filterMap fun spec => (LiteralSearch.find spec.opening pending).map (·, spec)).foldr pickOpen none

def maxOpenHeld (specs : List (InlineTagSpec T)) (pending : Text) : Nat :=
  (specs.map fun spec => LiteralSearch.held pending spec.opening).foldr max 0

theorem foldr_pickOpen_mem {candidates : List (Nat × InlineTagSpec T)} {best : Nat × InlineTagSpec T}
    (h : candidates.foldr pickOpen none = some best) : best ∈ candidates := by
  induction candidates with
  | nil => cases h
  | cons c candidates ih =>
    rw [List.foldr_cons] at h
    unfold pickOpen at h
    split at h
    next other heq =>
      split at h
      · exact List.mem_cons_of_mem _ (ih (heq.trans h))
      · exact List.mem_cons.2 (.inl (Option.some.inj h).symm)
    next => exact List.mem_cons.2 (.inl (Option.some.inj h).symm)

theorem findNextOpen_spec {specs : List (InlineTagSpec T)} {pending : Text} {best : Nat × InlineTagSpec T}
    (h : findNextOpen specs pending = some best) : LiteralSearch.find best.2.opening pending = some best.1 := by
  obtain ⟨spec, -, hspec⟩ := List.mem_filterMap.1 (foldr_pickOpen_mem h)
  obtain ⟨pos, hpos, rfl⟩ := Option.map_eq_some_iff.1 hspec
  exact hpos

/-- Dropping a delimiter that was found leaves less. -/
theorem length_drop_lt {needle s : Text} {pos : Nat} (hne : needle ≠ []) (h : LiteralSearch.find needle s = some pos) :
    s.length - (pos + needle.length) < s.length := by
  have hlt := LiteralSearch.find_lt h
  have hpos := List.length_pos_iff.2 hne
  omega

/-- The loop of `push_str`: `pending` and `active` are the parser's, `out` the chunk so far. -/
def scan (specs : List (InlineTagSpec T)) (pending : Text) (active : Option (ActiveTag T))
    (out : StreamTextChunk (ExtractedInlineTag T)) : InlineHiddenTagParser T × StreamTextChunk (ExtractedInlineTag T) :=
  match active with
  | some active =>
    match h : LiteralSearch.find active.close pending with
    | some closeIdx =>
      have := length_drop_lt active.close_ne h
      scan specs (pending.drop (closeIdx + active.close.length)) none
        { out with extracted := out.extracted ++ [{ tag := active.tag, content := active.content ++ pending.take closeIdx }] }
    | none =>
      let take := pending.length - LiteralSearch.held pending active.close
      ({ specs, pending := pending.drop take, active := some { active with content := active.content ++ pending.take take } },
        out)
  | none =>
    match h : findNextOpen specs pending with
    | some (openIdx, spec) =>
      have := length_drop_lt spec.opening_ne (findNextOpen_spec h)
      scan specs (pending.drop (openIdx + spec.opening.length))
        (some { tag := spec.tag, close := spec.close, content := [], close_ne := spec.close_ne })
        { out with visibleText := out.visibleText ++ pending.take openIdx }
    | none =>
      let take := pending.length - maxOpenHeld specs pending
      ({ specs, pending := pending.drop take, active := none },
        { out with visibleText := out.visibleText ++ pending.take take })
termination_by pending.length

def pushStr (p : InlineHiddenTagParser T) (chunk : Text) : InlineHiddenTagParser T × StreamTextChunk (ExtractedInlineTag T) :=
  scan p.specs (p.pending ++ chunk) p.active {}

/-- A tag still open is closed by the end of the text. -/
def finish (p : InlineHiddenTagParser T) : InlineHiddenTagParser T × StreamTextChunk (ExtractedInlineTag T) :=
  match p.active with
  | some active =>
    ({ p with pending := [], active := none },
      { extracted := [{ tag := active.tag, content := active.content ++ p.pending }] })
  | none => ({ p with pending := [] }, { visibleText := p.pending })

end InlineHiddenTagParser

/-! ## Citations -/

inductive CitationTag
  | citation
  deriving DecidableEq, Repr

def citationOpen : Text := "<oai-mem-citation>".toList
def citationClose : Text := "</oai-mem-citation>".toList

def citationSpec : InlineTagSpec CitationTag where
  tag := .citation
  opening := citationOpen
  close := citationClose
  opening_ne := by decide
  close_ne := by decide

structure CitationStreamParser where
  inner : InlineHiddenTagParser CitationTag := { specs := [citationSpec] }

namespace CitationStreamParser

def contents (chunk : StreamTextChunk (ExtractedInlineTag CitationTag)) : StreamTextChunk Text where
  visibleText := chunk.visibleText
  extracted := chunk.extracted.map (·.content)

def pushStr (p : CitationStreamParser) (chunk : Text) : CitationStreamParser × StreamTextChunk Text :=
  let (inner, out) := p.inner.pushStr chunk
  ({ inner }, contents out)

def finish (p : CitationStreamParser) : CitationStreamParser × StreamTextChunk Text :=
  let (inner, out) := p.inner.finish
  ({ inner }, contents out)

end CitationStreamParser

/-! ## Tags on lines of their own -/

structure TagSpec (T : Type) where
  opening : Text
  close : Text
  tag : T
  deriving DecidableEq, Repr

inductive TaggedLineSegment (T : Type)
  | normal (text : Text)
  | tagStart (tag : T)
  | tagDelta (tag : T) (text : Text)
  | tagEnd (tag : T)
  deriving DecidableEq, Repr

structure TaggedLineParser (T : Type) where
  specs : List (TagSpec T)
  activeTag : Option T := none
  detectTag : Bool := true
  lineBuffer : Text := []
  deriving DecidableEq, Repr

namespace TaggedLineParser

variable {T : Type} [DecidableEq T]

/-- Two segments in a row that are shown as one. -/
def joinSegments : TaggedLineSegment T → TaggedLineSegment T → Option (TaggedLineSegment T)
  | .normal existing, .normal delta => some (.normal (existing ++ delta))
  | .tagDelta existingTag existing, .tagDelta tag delta =>
    if existingTag = tag then some (.tagDelta existingTag (existing ++ delta)) else none
  | _, _ => none

/-- A delta that carries no text. -/
def isEmptyDelta : TaggedLineSegment T → Bool
  | .normal delta => delta = []
  | .tagDelta _ delta => delta = []
  | _ => false

def pushSegment (segments : List (TaggedLineSegment T)) (segment : TaggedLineSegment T) : List (TaggedLineSegment T) :=
  if isEmptyDelta segment then segments
  else match segments.getLast?.bind (joinSegments · segment) with
    | some joined => segments.dropLast ++ [joined]
    | none => segments ++ [segment]

def textSegment (activeTag : Option T) (text : Text) : TaggedLineSegment T :=
  match activeTag with
  | some tag => .tagDelta tag text
  | none => .normal text

def isTagStart (specs : List (TagSpec T)) (slug : Text) : Bool :=
  let slug := trimEnd slug
  specs.any fun spec => startsWith spec.opening slug || startsWith spec.close slug

def matchOpen (specs : List (TagSpec T)) (slug : Text) : Option T :=
  (specs.find? fun spec => spec.opening = slug).map (·.tag)

def matchClose (specs : List (TagSpec T)) (slug : Text) : Option T :=
  (specs.find? fun spec => spec.close = slug).map (·.tag)

variable (p : TaggedLineParser T)

def pushText (text : Text) (segments : List (TaggedLineSegment T)) : List (TaggedLineSegment T) :=
  pushSegment segments (textSegment p.activeTag text)

/-- What a whole line is, with its newline if it has one: the segment it gives and the tag active after it. -/
def classifyLine (line : Text) : TaggedLineSegment T × Option T :=
  let withoutNewline := if line.getLast? = some '\n' then line.dropLast else line
  let slug := trimEnd (trimStart withoutNewline)
  match matchOpen p.specs slug, p.activeTag with
  | some tag, none => (.tagStart tag, some tag)
  | _, active => match matchClose p.specs slug with
    | some tag => if active = some tag then (.tagEnd tag, none) else (textSegment active line, active)
    | none => (textSegment active line, active)

def finishLine (segments : List (TaggedLineSegment T)) : TaggedLineParser T × List (TaggedLineSegment T) :=
  let (segment, activeTag) := p.classifyLine p.lineBuffer
  ({ p with lineBuffer := [], detectTag := true, activeTag }, pushSegment segments segment)

/-- The loop of `parse` carries the text not yet pushed (`run`) and the segments. -/
structure Parsing (T : Type) where
  parser : TaggedLineParser T
  run : Text
  segments : List (TaggedLineSegment T)

def parseChar (s : Parsing T) (ch : Char) : Parsing T :=
  if s.parser.detectTag then
    let segments := if s.run ≠ [] then s.parser.pushText s.run s.segments else s.segments
    let p := { s.parser with lineBuffer := s.parser.lineBuffer ++ [ch] }
    if ch = '\n' then
      let (p, segments) := p.finishLine segments
      { parser := p, run := [], segments }
    else
      let slug := trimStart p.lineBuffer
      if slug = [] ∨ isTagStart p.specs slug then { parser := p, run := [], segments }
      else { parser := { p with lineBuffer := [], detectTag := false }, run := [], segments := p.pushText p.lineBuffer segments }
  else
    let run := s.run ++ [ch]
    if ch = '\n' then
      { parser := { s.parser with detectTag := true }, run := [], segments := s.parser.pushText run s.segments }
    else { s with run }

def parse (delta : Text) : TaggedLineParser T × List (TaggedLineSegment T) :=
  let s := delta.foldl parseChar { parser := p, run := [], segments := [] }
  (s.parser, if s.run ≠ [] then s.parser.pushText s.run s.segments else s.segments)

/-- The buffered line counts as a line, and an open block ends with the text. -/
def finish : TaggedLineParser T × List (TaggedLineSegment T) :=
  let (segments, activeTag) := if p.lineBuffer ≠ [] then
      let (segment, activeTag) := p.classifyLine p.lineBuffer
      (pushSegment [] segment, activeTag)
    else ([], p.activeTag)
  ({ p with lineBuffer := [], detectTag := true, activeTag := none },
    match activeTag with
    | some tag => pushSegment segments (.tagEnd tag)
    | none => segments)

end TaggedLineParser

/-! ## Proposed plans -/

inductive PlanTag
  | proposedPlan
  deriving DecidableEq, Repr

inductive ProposedPlanSegment
  | normal (text : Text)
  | proposedPlanStart
  | proposedPlanDelta (text : Text)
  | proposedPlanEnd
  deriving DecidableEq, Repr

def planSpec : TagSpec PlanTag where
  opening := "<proposed_plan>".toList
  close := "</proposed_plan>".toList
  tag := .proposedPlan

structure ProposedPlanParser where
  parser : TaggedLineParser PlanTag := { specs := [planSpec] }

namespace ProposedPlanParser

def mapSegment : TaggedLineSegment PlanTag → ProposedPlanSegment
  | .normal text => .normal text
  | .tagStart .proposedPlan => .proposedPlanStart
  | .tagDelta .proposedPlan text => .proposedPlanDelta text
  | .tagEnd .proposedPlan => .proposedPlanEnd

def normalText : ProposedPlanSegment → Text
  | .normal text => text
  | _ => []

def mapSegments (segments : List (TaggedLineSegment PlanTag)) : StreamTextChunk ProposedPlanSegment where
  visibleText := (segments.map mapSegment).flatMap normalText
  extracted := segments.map mapSegment

def pushStr (p : ProposedPlanParser) (chunk : Text) : ProposedPlanParser × StreamTextChunk ProposedPlanSegment :=
  let (parser, segments) := p.parser.parse chunk
  ({ parser }, mapSegments segments)

def finish (p : ProposedPlanParser) : ProposedPlanParser × StreamTextChunk ProposedPlanSegment :=
  let (parser, segments) := p.parser.finish
  ({ parser }, mapSegments segments)

end ProposedPlanParser

/-! ## Assistant text -/

structure AssistantTextChunk where
  visibleText : Text := []
  citations : List Text := []
  planSegments : List ProposedPlanSegment := []
  deriving DecidableEq, Repr

structure AssistantTextStreamParser where
  planMode : Bool
  citations : CitationStreamParser := {}
  plan : ProposedPlanParser := {}

namespace AssistantTextStreamParser

variable (p : AssistantTextStreamParser)

def parseVisibleText (visibleText : Text) : AssistantTextStreamParser × AssistantTextChunk :=
  if !p.planMode then (p, { visibleText })
  else
    let (plan, chunk) := p.plan.pushStr visibleText
    ({ p with plan }, { visibleText := chunk.visibleText, planSegments := chunk.extracted })

def pushStr (chunk : Text) : AssistantTextStreamParser × AssistantTextChunk :=
  let (citations, citationChunk) := p.citations.pushStr chunk
  let (p, out) := { p with citations }.parseVisibleText citationChunk.visibleText
  (p, { out with citations := citationChunk.extracted })

def finish : AssistantTextStreamParser × AssistantTextChunk :=
  let (citations, citationChunk) := p.citations.finish
  let (p, out) := { p with citations }.parseVisibleText citationChunk.visibleText
  if p.planMode then
    let (plan, tail) := p.plan.finish
    ({ p with plan },
      { visibleText := out.visibleText ++ tail.visibleText
        planSegments := out.planSegments ++ tail.extracted
        citations := citationChunk.extracted })
  else (p, { out with citations := citationChunk.extracted })

end AssistantTextStreamParser

end Codex.StreamText
