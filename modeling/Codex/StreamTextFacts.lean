/-
Cutting assistant text into chunks does not change what is read of it (`collect_chunks`).
The inline parser keeps exactly what a later search needs; the line parser differs only in
how the text is cut into segments, which joining neighbours undoes.
-/
import Codex.StreamText
import Codex.Lib.MergeAdjacent

namespace Codex.StreamText

open Text

/-! ## The inline parser -/

namespace StreamTextChunk

variable {E : Type}

def append (c c' : StreamTextChunk E) : StreamTextChunk E where
  visibleText := c.visibleText ++ c'.visibleText
  extracted := c.extracted ++ c'.extracted

theorem append_empty (c : StreamTextChunk E) : c.append {} = c := by
  unfold append
  simp

theorem empty_append (c : StreamTextChunk E) : append {} c = c := rfl

theorem append_assoc (a b c : StreamTextChunk E) : (a.append b).append c = a.append (b.append c) := by
  unfold append
  simp

end StreamTextChunk

theorem take_append_add {s t : Text} {m : Nat} (hm : m ≤ s.length) (j : Nat) :
    (s ++ t).take (m + j) = s.take m ++ (s.drop m ++ t).take j := by
  rw [List.take_add, List.take_append_of_le_length hm, List.drop_append_of_le_length hm]

theorem drop_append_add {s t : Text} {m : Nat} (hm : m ≤ s.length) (j : Nat) :
    (s ++ t).drop (m + j) = (s.drop m ++ t).drop j := by
  rw [← List.drop_drop, List.drop_append_of_le_length hm]

namespace InlineHiddenTagParser

variable {T : Type} {specs : List (InlineTagSpec T)} {spec : InlineTagSpec T} {pending : Text} {active : ActiveTag T}
  {out : StreamTextChunk (ExtractedInlineTag T)}

theorem scan_close {i : Nat} (h : LiteralSearch.find active.close pending = some i) :
    scan specs pending (some active) out = scan specs (pending.drop (i + active.close.length)) none
      { out with extracted := out.extracted ++ [{ tag := active.tag, content := active.content ++ pending.take i }] } := by
  rw [scan]
  split
  next i' h' =>
    obtain rfl := Option.some.inj (h.symm.trans h')
    rfl
  next h' => cases h.symm.trans h'

theorem scan_inside (h : LiteralSearch.find active.close pending = none) :
    scan specs pending (some active) out =
      ({ specs, pending := pending.drop (pending.length - LiteralSearch.held pending active.close),
         active := some { active with
           content := active.content ++ pending.take (pending.length - LiteralSearch.held pending active.close) } }, out) := by
  rw [scan]
  split
  next i' h' => cases h.symm.trans h'
  next h' => rfl

theorem scan_open {best} (h : findNextOpen specs pending = some best) :
    scan specs pending none out = scan specs (pending.drop (best.1 + best.2.opening.length))
      (some { tag := best.2.tag, close := best.2.close, content := [], close_ne := best.2.close_ne })
      { out with visibleText := out.visibleText ++ pending.take best.1 } := by
  conv_lhs => rw [scan]
  split
  next i' spec' h' =>
    obtain rfl := Option.some.inj (h.symm.trans h')
    rfl
  next h' => cases h.symm.trans h'

theorem scan_outside (h : findNextOpen specs pending = none) :
    scan specs pending none out =
      ({ specs, pending := pending.drop (pending.length - maxOpenHeld specs pending), active := none },
        { out with visibleText := out.visibleText ++ pending.take (pending.length - maxOpenHeld specs pending) }) := by
  rw [scan]
  split
  next i' spec' h' => cases h.symm.trans h'
  next h' => rfl

theorem findNextOpen_single : findNextOpen [spec] pending = (LiteralSearch.find spec.opening pending).map (·, spec) := by
  unfold findNextOpen
  cases h : LiteralSearch.find spec.opening pending with
  | none => simp [h]
  | some i => simp [h, pickOpen]

theorem maxOpenHeld_single : maxOpenHeld [spec] pending = LiteralSearch.held pending spec.opening := by
  unfold maxOpenHeld
  simp

/-- What was read before is not looked at again. -/
theorem scan_out (specs : List (InlineTagSpec T)) (pending : Text) (active : Option (ActiveTag T))
    (out out' : StreamTextChunk (ExtractedInlineTag T)) :
    scan specs pending active (out'.append out) =
      ((scan specs pending active out).1, out'.append (scan specs pending active out).2) := by
  induction pending, active, out using scan.induct specs with
  | case1 pending out active i hfind _ ih =>
    rw [scan_close hfind, scan_close hfind, ← ih]
    unfold StreamTextChunk.append
    rw [List.append_assoc]
  | case2 pending out active hfind =>
    rw [scan_inside hfind, scan_inside hfind]
  | case3 pending out i spec hfind _ ih =>
    rw [scan_open hfind, scan_open hfind, ← ih]
    unfold StreamTextChunk.append
    rw [List.append_assoc]
  | case4 pending out hfind =>
    rw [scan_outside hfind, scan_outside hfind]
    unfold StreamTextChunk.append
    rw [List.append_assoc]

/-- **Scanning on after more text came is scanning it all.** -/
theorem scan_append (spec : InlineTagSpec T) (pending t : Text) (active : Option (ActiveTag T))
    (out : StreamTextChunk (ExtractedInlineTag T)) :
    scan [spec] (pending ++ t) active out =
      scan [spec] ((scan [spec] pending active out).1.pending ++ t) (scan [spec] pending active out).1.active
        (scan [spec] pending active out).2 := by
  induction pending, active, out using scan.induct [spec] with
  | case1 pending out active i hfind _ ih =>
    have hlt := LiteralSearch.find_lt hfind
    rw [scan_close hfind, ← ih, scan_close (LiteralSearch.find_append_of_some hfind t),
      List.drop_append_of_le_length hlt, List.take_append_of_le_length (by omega)]
  | case2 pending out active hfind =>
    rw [scan_inside hfind]
    have hle : pending.length - LiteralSearch.held pending active.close ≤ pending.length := Nat.sub_le ..
    have happ := LiteralSearch.find_append_of_none active.close_ne hfind t
    have hreleased := LiteralSearch.released_append active.close_ne pending t
    generalize hm : pending.length - LiteralSearch.held pending active.close = m at hle happ hreleased ⊢
    generalize hk : ({ active with content := active.content ++ pending.take m } : ActiveTag T) = kept
    have hclose : kept.close = active.close := by rw [← hk]
    cases hlater : LiteralSearch.find kept.close (pending.drop m ++ t) with
    | some j =>
      rw [← hclose, hlater, Option.map_some, hclose] at happ
      rw [scan_close happ, scan_close hlater, Nat.add_assoc, drop_append_add hle, take_append_add hle, ← hk,
        List.append_assoc]
    | none =>
      rw [← hclose, hlater, Option.map_none, hclose] at happ
      rw [scan_inside happ, scan_inside hlater, hreleased, drop_append_add hle, take_append_add hle]
      subst hk
      rw [List.append_assoc]
  | case3 pending out i best hfind _ ih =>
    have hfind' : LiteralSearch.find spec.opening pending = some i ∧ best = spec := by
      rw [findNextOpen_single] at hfind
      cases h : LiteralSearch.find spec.opening pending <;> simp_all
    obtain ⟨hpos, rfl⟩ := hfind'
    have hlt := LiteralSearch.find_lt hpos
    have happ : findNextOpen [best] (pending ++ t) = some (i, best) := by
      rw [findNextOpen_single, LiteralSearch.find_append_of_some hpos]
      rfl
    rw [scan_open hfind, ← ih, scan_open happ, List.drop_append_of_le_length hlt, List.take_append_of_le_length (by omega)]
  | case4 pending out hfind =>
    have hnone : LiteralSearch.find spec.opening pending = none := by
      rw [findNextOpen_single, Option.map_eq_none_iff] at hfind
      exact hfind
    rw [scan_outside hfind]
    rw [maxOpenHeld_single]
    have hle : pending.length - LiteralSearch.held pending spec.opening ≤ pending.length := Nat.sub_le ..
    have happ := LiteralSearch.find_append_of_none spec.opening_ne hnone t
    have hreleased := LiteralSearch.released_append spec.opening_ne pending t
    generalize hm : pending.length - LiteralSearch.held pending spec.opening = m at hle happ hreleased ⊢
    cases hlater : LiteralSearch.find spec.opening (pending.drop m ++ t) with
    | some j =>
      have hopen : findNextOpen [spec] (pending ++ t) = some (m + j, spec) := by
        rw [findNextOpen_single, happ, hlater]
        rfl
      have hopenLater : findNextOpen [spec] (pending.drop m ++ t) = some (j, spec) := by
        rw [findNextOpen_single, hlater]
        rfl
      rw [scan_open hopen, scan_open hopenLater]
      rw [Nat.add_assoc, drop_append_add hle, take_append_add hle, List.append_assoc]
    | none =>
      have hopen : findNextOpen [spec] (pending ++ t) = none := by
        rw [findNextOpen_single, happ, hlater]
        rfl
      have hopenLater : findNextOpen [spec] (pending.drop m ++ t) = none := by
        rw [findNextOpen_single, hlater]
        rfl
      rw [scan_outside hopen, scan_outside hopenLater, maxOpenHeld_single, maxOpenHeld_single, hreleased,
        drop_append_add hle, take_append_add hle, List.append_assoc]

theorem scan_specs (specs : List (InlineTagSpec T)) (pending : Text) (active : Option (ActiveTag T))
    (out : StreamTextChunk (ExtractedInlineTag T)) : (scan specs pending active out).1.specs = specs := by
  induction pending, active, out using scan.induct specs with
  | case1 pending out active i hfind _ ih => rw [scan_close hfind, ih]
  | case2 pending out active hfind => rw [scan_inside hfind]
  | case3 pending out i spec hfind _ ih => rw [scan_open hfind, ih]
  | case4 pending out hfind => rw [scan_outside hfind]

theorem pushStr_append {p : InlineHiddenTagParser T} (hp : p.specs = [spec]) (a b : Text) :
    p.pushStr (a ++ b) = (((p.pushStr a).1.pushStr b).1, (p.pushStr a).2.append ((p.pushStr a).1.pushStr b).2) := by
  have hspecs := scan_specs [spec] (p.pending ++ a) p.active {}
  unfold pushStr
  rw [hp, hspecs, ← List.append_assoc, scan_append, ← scan_out, StreamTextChunk.append_empty]

theorem pushStr_specs (p : InlineHiddenTagParser T) (a : Text) : (p.pushStr a).1.specs = p.specs := scan_specs ..

end InlineHiddenTagParser

/-! ## The line parser -/

namespace TaggedLineParser

open MergeAdjacent

variable {T : Type} [DecidableEq T]

omit [DecidableEq T] in
theorem textSegment_inj {k k' : Option T} {x y : Text} (h : textSegment k x = textSegment k' y) : k = k' ∧ x = y := by
  cases k <;> cases k' <;> cases h <;> exact ⟨rfl, rfl⟩

theorem joinSegments_textSegment (k : Option T) (x y : Text) :
    joinSegments (textSegment k x) (textSegment k y) = some (textSegment k (x ++ y)) := by
  cases k with
  | none => rfl
  | some tag => exact if_pos rfl

theorem joinSegments_eq_some {a b c : TaggedLineSegment T} (h : joinSegments a b = some c) :
    ∃ k x y, a = textSegment k x ∧ b = textSegment k y ∧ c = textSegment k (x ++ y) := by
  unfold joinSegments at h
  split at h
  · exact ⟨none, _, _, rfl, rfl, (Option.some.inj h).symm⟩
  · split at h
    next htag =>
      subst htag
      exact ⟨some _, _, _, rfl, rfl, (Option.some.inj h).symm⟩
    · cases h
  · cases h

theorem joinSegments_associative : Associative (joinSegments (T := T)) where
  both {a b c ab bc} hab hbc := by
    obtain ⟨k, x, y, rfl, rfl, rfl⟩ := joinSegments_eq_some hab
    obtain ⟨k', y', z, hb, rfl, rfl⟩ := joinSegments_eq_some hbc
    obtain ⟨rfl, rfl⟩ := textSegment_inj hb
    refine ⟨_, joinSegments_textSegment k x (y ++ z), ?_⟩
    rw [joinSegments_textSegment, List.append_assoc]
  stop {a b c ab} hab hbc := by
    obtain ⟨k, x, y, rfl, rfl, rfl⟩ := joinSegments_eq_some hab
    cases h : joinSegments (textSegment k (x ++ y)) c with
    | none => rfl
    | some abc =>
      obtain ⟨k', xy, z, hab', rfl, rfl⟩ := joinSegments_eq_some h
      obtain ⟨rfl, -⟩ := textSegment_inj hab'
      rw [joinSegments_textSegment] at hbc
      cases hbc

theorem pushSegment_same (segments : List (TaggedLineSegment T)) {segment}
    (h : isEmptyDelta segment = false) : Same joinSegments (pushSegment segments segment) (segments ++ [segment]) := by
  unfold pushSegment
  rw [if_neg (by rw [h]; exact Bool.false_ne_true)]
  cases hlast : segments.getLast? with
  | none => exact Same.refl
  | some last =>
    rw [Option.bind_some]
    cases hjoin : joinSegments last segment with
    | none => exact Same.refl
    | some joined =>
      have hsegments : segments = segments.dropLast ++ [last] := (List.dropLast_append_getLast? last hlast).symm
      have hsame := Same.append joinSegments_associative (Same.refl (l := segments.dropLast)) (Same.pair hjoin)
      conv_rhs => rw [hsegments, List.append_assoc]
      exact hsame.symm

omit [DecidableEq T] in
theorem isEmptyDelta_textSegment (k : Option T) {text : Text} (h : text ≠ []) : isEmptyDelta (textSegment k text) = false := by
  cases k with
  | none => exact decide_eq_false h
  | some tag => exact decide_eq_false h

theorem pushText_same (p : TaggedLineParser T) {text : Text} (h : text ≠ []) (segments : List (TaggedLineSegment T)) :
    Same joinSegments (p.pushText text segments) (segments ++ [textSegment p.activeTag text]) :=
  pushSegment_same segments (isEmptyDelta_textSegment p.activeTag h)

theorem isEmptyDelta_classifyLine (p : TaggedLineParser T) {line : Text} (h : line ≠ []) :
    isEmptyDelta (p.classifyLine line).1 = false := by
  unfold classifyLine
  dsimp only
  split
  · rfl
  · split
    · split
      · rfl
      · exact isEmptyDelta_textSegment _ h
    · exact isEmptyDelta_textSegment _ h

/-- The parser on one character, with a segment for each text it lets go. -/
def stepChar (p : TaggedLineParser T) (ch : Char) : TaggedLineParser T × List (TaggedLineSegment T) :=
  if p.detectTag then
    let line := p.lineBuffer ++ [ch]
    if ch = '\n' then
      ({ p with lineBuffer := [], detectTag := true, activeTag := (p.classifyLine line).2 }, [(p.classifyLine line).1])
    else if trimStart line = [] ∨ isTagStart p.specs (trimStart line) then ({ p with lineBuffer := line }, [])
    else ({ p with lineBuffer := [], detectTag := false }, [textSegment p.activeTag line])
  else (if ch = '\n' then { p with detectTag := true } else p, [textSegment p.activeTag [ch]])

def stepChars (p : TaggedLineParser T) : Text → TaggedLineParser T × List (TaggedLineSegment T)
  | [] => (p, [])
  | ch :: text =>
    let (p, segments) := p.stepChar ch
    let (p, segments') := p.stepChars text
    (p, segments ++ segments')

theorem stepChars_append (p : TaggedLineParser T) (a b : Text) :
    p.stepChars (a ++ b) =
      (((p.stepChars a).1.stepChars b).1, (p.stepChars a).2 ++ ((p.stepChars a).1.stepChars b).2) := by
  induction a generalizing p with
  | nil => rfl
  | cons ch a ih =>
    change (((p.stepChar ch).1.stepChars (a ++ b)).1, (p.stepChar ch).2 ++ ((p.stepChar ch).1.stepChars (a ++ b)).2) = _
    rw [ih, ← List.append_assoc]
    rfl

/-- The text read but not yet pushed, as a segment. -/
def Parsing.unpushed (s : Parsing T) : List (TaggedLineSegment T) :=
  if s.run ≠ [] then [textSegment s.parser.activeTag s.run] else []

omit [DecidableEq T] in
theorem Parsing.unpushed_nil {s : Parsing T} (h : s.run = []) : s.unpushed = [] := by
  unfold Parsing.unpushed
  rw [if_neg (not_not.2 h)]

omit [DecidableEq T] in
theorem Parsing.unpushed_run {s : Parsing T} (h : s.run ≠ []) : s.unpushed = [textSegment s.parser.activeTag s.run] := by
  unfold Parsing.unpushed
  rw [if_pos h]

theorem Parsing.unpushed_append (s : Parsing T) (ch : Char) :
    Same joinSegments (s.unpushed ++ [textSegment s.parser.activeTag [ch]])
      [textSegment s.parser.activeTag (s.run ++ [ch])] := by
  by_cases h : s.run = []
  · rw [Parsing.unpushed_nil h, h]
    exact Same.refl
  · rw [Parsing.unpushed_run h]
    exact Same.pair (joinSegments_textSegment ..)

/-- What one character of the loop does. -/
structure ParsesTo (s s' : Parsing T) (p : TaggedLineParser T) (segments : List (TaggedLineSegment T)) : Prop where
  parser : s'.parser = p
  /-- no text is left unpushed where a tag may begin -/
  run : s'.parser.detectTag = true → s'.run = []
  segments : Same joinSegments (s'.segments ++ s'.unpushed) (s.segments ++ s.unpushed ++ segments)

theorem parseChar_same (s : Parsing T) (hrun : s.parser.detectTag = true → s.run = []) (ch : Char) :
    ParsesTo s (parseChar s ch) (s.parser.stepChar ch).1 (s.parser.stepChar ch).2 := by
  unfold parseChar stepChar
  by_cases hdetect : s.parser.detectTag = true
  · have hnil := hrun hdetect
    rw [if_pos hdetect, if_pos hdetect, if_neg (not_not.2 hnil)]
    dsimp only
    have hline : s.parser.lineBuffer ++ [ch] ≠ [] := by simp
    have hunpushed := Parsing.unpushed_nil hnil
    split
    · refine ⟨rfl, fun _ => rfl, ?_⟩
      rw [hunpushed, Parsing.unpushed_nil rfl, List.append_nil, List.append_nil]
      exact pushSegment_same s.segments (isEmptyDelta_classifyLine s.parser hline)
    · split
      · refine ⟨rfl, fun _ => rfl, ?_⟩
        rw [hunpushed, Parsing.unpushed_nil rfl, List.append_nil, List.append_nil]
        exact Same.refl
      · refine ⟨rfl, fun _ => rfl, ?_⟩
        rw [hunpushed, Parsing.unpushed_nil rfl, List.append_nil, List.append_nil]
        exact pushSegment_same s.segments (isEmptyDelta_textSegment _ hline)
  · rw [if_neg hdetect, if_neg hdetect]
    have hrunch : s.run ++ [ch] ≠ [] := by simp
    have hjoin := Same.append joinSegments_associative (Same.refl (l := s.segments)) (s.unpushed_append ch)
    rw [← List.append_assoc] at hjoin
    split
    next hch =>
      refine ⟨rfl, fun _ => rfl, ?_⟩
      rw [Parsing.unpushed_nil rfl, List.append_nil]
      exact (pushSegment_same s.segments (isEmptyDelta_textSegment _ hrunch)).trans hjoin.symm
    next hch =>
      refine ⟨rfl, fun h => absurd h hdetect, ?_⟩
      rw [Parsing.unpushed_run hrunch]
      exact hjoin.symm

theorem foldl_parseChar_same (delta : Text) (s : Parsing T) (hrun : s.parser.detectTag = true → s.run = []) :
    ParsesTo s (delta.foldl parseChar s) (s.parser.stepChars delta).1 (s.parser.stepChars delta).2 := by
  induction delta generalizing s with
  | nil =>
    refine ⟨rfl, hrun, ?_⟩
    change Same _ _ (s.segments ++ s.unpushed ++ [])
    rw [List.append_nil]
    exact Same.refl
  | cons ch delta ih =>
    have hch := parseChar_same s hrun ch
    have hdelta := ih _ hch.run
    rw [hch.parser] at hdelta
    refine ⟨hdelta.parser, hdelta.run, hdelta.segments.trans ?_⟩
    change Same _ _ (s.segments ++ s.unpushed ++ ((s.parser.stepChar ch).2 ++ _))
    rw [← List.append_assoc]
    exact Same.append joinSegments_associative hch.segments Same.refl

/-- **A chunk is parsed character by character**, but for how its text is cut into segments. -/
theorem parse_same (p : TaggedLineParser T) (delta : Text) :
    (p.parse delta).1 = (p.stepChars delta).1 ∧ Same joinSegments (p.parse delta).2 (p.stepChars delta).2 := by
  have hfold := foldl_parseChar_same delta { parser := p, run := [], segments := [] } fun _ => rfl
  refine ⟨hfold.parser, Same.trans ?_ hfold.segments⟩
  unfold parse
  dsimp only
  split
  next h =>
    rw [Parsing.unpushed_run h]
    exact pushText_same _ h _
  next h =>
    rw [Parsing.unpushed_nil (not_not.1 h), List.append_nil]
    exact Same.refl

/-- Two chunks are parsed as one. -/
theorem parse_append (p : TaggedLineParser T) (a b : Text) :
    (p.parse (a ++ b)).1 = ((p.parse a).1.parse b).1 ∧
    Same joinSegments (p.parse (a ++ b)).2 ((p.parse a).2 ++ ((p.parse a).1.parse b).2) := by
  obtain ⟨ha, hsa⟩ := p.parse_same a
  obtain ⟨hb, hsb⟩ := (p.parse a).1.parse_same b
  obtain ⟨hab, hsab⟩ := p.parse_same (a ++ b)
  rw [ha] at hb hsb
  rw [stepChars_append] at hab hsab
  rw [ha]
  exact ⟨hab.trans hb.symm, hsab.trans (Same.append joinSegments_associative hsa hsb).symm⟩

end TaggedLineParser

/-! ## Assistant text -/

open MergeAdjacent

/-- Neighbours shown as one: two texts outside plans, or two inside. -/
def joinPlan : ProposedPlanSegment → ProposedPlanSegment → Option ProposedPlanSegment
  | .normal text, .normal text' => some (.normal (text ++ text'))
  | .proposedPlanDelta text, .proposedPlanDelta text' => some (.proposedPlanDelta (text ++ text'))
  | _, _ => none

def mergePlanSegments : List ProposedPlanSegment → List ProposedPlanSegment := merge joinPlan

namespace ProposedPlanParser

theorem joinPlan_mapSegment (a b : TaggedLineSegment PlanTag) :
    (TaggedLineParser.joinSegments a b).map mapSegment = joinPlan (mapSegment a) (mapSegment b) := by
  cases a <;> cases b <;> rfl

theorem joinPlan_normalText (a b ab : ProposedPlanSegment) (h : joinPlan a b = some ab) :
    normalText ab = normalText a ++ normalText b := by
  cases a <;> cases b <;> cases h <;> rfl

theorem joinPlan_associative : Associative joinPlan where
  both {a b c ab bc} hab hbc := by
    cases a <;> cases b <;> cases hab <;> cases c <;> cases hbc <;>
      exact ⟨_, rfl, congrArg some (by rw [List.append_assoc])⟩
  stop {a b c ab} hab hbc := by
    cases a <;> cases b <;> cases hab <;> cases c <;> first | rfl | cases hbc

theorem pushStr_append (p : ProposedPlanParser) (a b : Text) :
    (p.pushStr (a ++ b)).1 = ((p.pushStr a).1.pushStr b).1 ∧
    (p.pushStr (a ++ b)).2.visibleText = (p.pushStr a).2.visibleText ++ ((p.pushStr a).1.pushStr b).2.visibleText ∧
    Same joinPlan (p.pushStr (a ++ b)).2.extracted ((p.pushStr a).2.extracted ++ ((p.pushStr a).1.pushStr b).2.extracted) := by
  obtain ⟨hparser, hsegments⟩ := p.parser.parse_append a b
  have hmap := hsegments.map joinPlan_mapSegment
  rw [List.map_append] at hmap
  refine ⟨congrArg ProposedPlanParser.mk hparser, ?_, hmap⟩
  have hvisible := hmap.flatMap_eq joinPlan_normalText
  rw [List.flatMap_append] at hvisible
  exact hvisible

end ProposedPlanParser

namespace CitationStreamParser

theorem pushStr_append {p : CitationStreamParser} (hp : p.inner.specs = [citationSpec]) (a b : Text) :
    p.pushStr (a ++ b) = (((p.pushStr a).1.pushStr b).1, (p.pushStr a).2.append ((p.pushStr a).1.pushStr b).2) := by
  have hinner := InlineHiddenTagParser.pushStr_append hp a b
  unfold pushStr
  rw [hinner]
  unfold contents StreamTextChunk.append
  dsimp only
  rw [List.map_append]

end CitationStreamParser

namespace AssistantTextChunk

def append (c c' : AssistantTextChunk) : AssistantTextChunk where
  visibleText := c.visibleText ++ c'.visibleText
  citations := c.citations ++ c'.citations
  planSegments := c.planSegments ++ c'.planSegments

/-- The same to a reader: only the cuts within a run of plan segments differ. -/
structure Agrees (c c' : AssistantTextChunk) : Prop where
  visibleText : c.visibleText = c'.visibleText
  citations : c.citations = c'.citations
  planSegments : Same joinPlan c.planSegments c'.planSegments

theorem Agrees.refl {c : AssistantTextChunk} : c.Agrees c := ⟨rfl, rfl, rfl⟩

theorem Agrees.trans {c c' c'' : AssistantTextChunk} (h : c.Agrees c') (h' : c'.Agrees c'') : c.Agrees c'' :=
  ⟨h.visibleText.trans h'.visibleText, h.citations.trans h'.citations, h.planSegments.trans h'.planSegments⟩

theorem Agrees.symm {c c' : AssistantTextChunk} (h : c.Agrees c') : c'.Agrees c :=
  ⟨h.visibleText.symm, h.citations.symm, h.planSegments.symm⟩

theorem Agrees.append {c c' d d' : AssistantTextChunk} (h : c.Agrees c') (h' : d.Agrees d') :
    (c.append d).Agrees (c'.append d') where
  visibleText := congrArg₂ _ h.visibleText h'.visibleText
  citations := congrArg₂ _ h.citations h'.citations
  planSegments := Same.append ProposedPlanParser.joinPlan_associative h.planSegments h'.planSegments

theorem append_empty (c : AssistantTextChunk) : c.append {} = c := by
  unfold append
  simp

end AssistantTextChunk

namespace AssistantTextStreamParser

/-- A chunk pushed in two parts. -/
theorem pushStr_append {p : AssistantTextStreamParser} (hp : p.citations.inner.specs = [citationSpec]) (a b : Text) :
    (p.pushStr (a ++ b)).1 = ((p.pushStr a).1.pushStr b).1 ∧
    (p.pushStr (a ++ b)).2.Agrees ((p.pushStr a).2.append ((p.pushStr a).1.pushStr b).2) := by
  obtain ⟨planMode, citations, plan⟩ := p
  have hcitations := CitationStreamParser.pushStr_append hp a b
  cases planMode with
  | false =>
    unfold pushStr
    rw [hcitations]
    exact ⟨rfl, rfl, rfl, rfl⟩
  | true =>
    -- the plan parser gets what the citation parser shows of each part
    obtain ⟨hplan, hvisible, hsegments⟩ := plan.pushStr_append (citations.pushStr a).2.visibleText
      ((citations.pushStr a).1.pushStr b).2.visibleText
    unfold pushStr
    rw [hcitations]
    exact ⟨congrArg (AssistantTextStreamParser.mk true _) hplan, hvisible, rfl, hsegments⟩

theorem pushStr_specs (p : AssistantTextStreamParser) (a : Text) :
    (p.pushStr a).1.citations.inner.specs = p.citations.inner.specs := by
  obtain ⟨planMode, citations, plan⟩ := p
  cases planMode <;> exact InlineHiddenTagParser.pushStr_specs citations.inner a

/-- The chunks pushed one after the other, and what they give together. -/
def pushAll (p : AssistantTextStreamParser) : List Text → AssistantTextStreamParser × AssistantTextChunk
  | [] => (p, {})
  | chunk :: chunks =>
    let (p, out) := p.pushStr chunk
    let (p, out') := p.pushAll chunks
    (p, out.append out')

def collect (planMode : Bool) (chunks : List Text) : AssistantTextChunk :=
  let (p, out) := pushAll { planMode } chunks
  out.append p.finish.2

theorem pushAll_single (p : AssistantTextStreamParser) (chunk : Text) : p.pushAll [chunk] = p.pushStr chunk := by
  have hpushed : p.pushAll [chunk] = ((p.pushStr chunk).1, (p.pushStr chunk).2.append {}) := rfl
  rw [hpushed, AssistantTextChunk.append_empty]

theorem pushAll_cons {p : AssistantTextStreamParser} (hp : p.citations.inner.specs = [citationSpec]) (chunk : Text)
    (chunks : List Text) :
    (p.pushAll (chunk :: chunks)).1 = (p.pushStr (chunk ++ chunks.flatten)).1 ∧
    (p.pushAll (chunk :: chunks)).2.Agrees (p.pushStr (chunk ++ chunks.flatten)).2 := by
  induction chunks generalizing p chunk with
  | nil =>
    rw [List.flatten_nil, List.append_nil]
    rw [pushAll_single]
    exact ⟨rfl, .refl⟩
  | cons chunk' chunks ih =>
    obtain ⟨hrest, hrestOut⟩ := ih ((p.pushStr_specs chunk).trans hp) chunk'
    obtain ⟨hsplit, hsplitOut⟩ := pushStr_append hp chunk (chunk' ++ chunks.flatten)
    exact ⟨hrest.trans hsplit.symm, (AssistantTextChunk.Agrees.refl.append hrestOut).trans hsplitOut.symm⟩

theorem pushStr_nil (planMode : Bool) :
    (AssistantTextStreamParser.mk planMode {} {}).pushStr [] = (.mk planMode {} {}, {}) := by
  have hscan : InlineHiddenTagParser.scan [citationSpec] [] none {} =
      (({ specs := [citationSpec] } : InlineHiddenTagParser CitationTag), {}) :=
    InlineHiddenTagParser.scan_outside rfl
  have hcitations : (CitationStreamParser.mk { specs := [citationSpec] }).pushStr [] =
      (({} : CitationStreamParser), ({} : StreamTextChunk Text)) := by
    unfold CitationStreamParser.pushStr InlineHiddenTagParser.pushStr
    rw [List.append_nil, hscan]
    rfl
  unfold pushStr
  rw [hcitations]
  cases planMode <;> rfl

/-- **Chunking does not change assistant text parsing.** -/
theorem collect_chunks (planMode : Bool) (chunks : List Text) :
    let cut := collect planMode chunks
    let whole := collect planMode [chunks.flatten]
    cut.visibleText = whole.visibleText ∧ cut.citations = whole.citations ∧
      mergePlanSegments cut.planSegments = mergePlanSegments whole.planSegments := by
  intro cut whole
  have hagrees : cut.Agrees whole := by
    have hpushed : (pushAll { planMode } chunks).1 = (pushAll { planMode } [chunks.flatten]).1 ∧
        (pushAll { planMode } chunks).2.Agrees (pushAll { planMode } [chunks.flatten]).2 := by
      rw [pushAll_single]
      cases chunks with
      | nil =>
        rw [List.flatten_nil, pushStr_nil]
        exact ⟨rfl, .refl⟩
      | cons chunk chunks => exact pushAll_cons rfl chunk chunks
    obtain ⟨hparser, hout⟩ := hpushed
    change ((pushAll { planMode } chunks).2.append (pushAll { planMode } chunks).1.finish.2).Agrees
      ((pushAll { planMode } [chunks.flatten]).2.append (pushAll { planMode } [chunks.flatten]).1.finish.2)
    rw [hparser]
    exact hout.append .refl
  exact ⟨hagrees.visibleText, hagrees.citations, hagrees.planSegments⟩

end AssistantTextStreamParser

end Codex.StreamText
