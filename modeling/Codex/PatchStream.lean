/-
The two drivers of the patch parser compared. Fed piece by piece, the parser sees each
terminated line of the text with one carriage return removed; the whole-text driver first
takes the text apart with `str::lines`, joins it again and feeds the result, so its lines
lose two (`parsePatch_eq_driver`). Whether that shows is a question about the grammar:
`Shape.recordsCr` finds a line that still ends in a carriage return where its text is
recorded. And `finish` lets an end marker close a patch that never began.
-/
import Codex.PatchGrammar

namespace Codex.Patch

open Text

/-! ## Carriage returns in the grammar -/

namespace Shape

variable {line : Text} {s : Shape}

theorem isBody_stripCr (h : isBody line = true) : isBody (stripCr line) = true := by
  by_cases hcr : line.getLast? = some '\r'
  · rw [eq_append_cr hcr] at h
    cases hs : stripCr line with
    | nil => rfl
    | cons c rest => rw [hs] at h; exact h
  · rwa [stripCr_of_not_cr hcr]

theorem head?_stripCr {c : Char} (hc : c ≠ '\r') : line.head? = some c ↔ (stripCr line).head? = some c := by
  by_cases hcr : line.getLast? = some '\r'
  · have h := eq_append_cr hcr
    cases hs : stripCr line with
    | nil =>
      rw [hs] at h
      rw [h]
      simp [Ne.symm hc]
    | cons d rest =>
      rw [hs] at h
      rw [h]
      simp
  · rw [stripCr_of_not_cr hcr]

/-- A line the grammar accepts is accepted without its carriage return, with the same effect. -/
theorem step_stripCr {s'} (h : s.step line = some s') : s.step (stripCr line) = some s' := by
  cases s with
  | notStarted | startedPatch | deleteFile | endedPatch => simpa [step, trim_stripCr] using h
  | addFile => simpa [step, trim_stripCr, ← head?_stripCr (show '+' ≠ '\r' by decide)] using h
  | updateFile moved last =>
    simp only [step, trimEnd_stripCr] at h ⊢
    split at h
    · exact h
    · next hh =>
      simp only [updateStep, trimEnd_stripCr] at h ⊢
      split at h
      · next h1 => rw [if_pos h1]; exact h
      next h1 =>
      rw [if_neg h1]
      split at h
      · cases h
      next h2 =>
      rw [if_neg h2]
      split at h
      · next h3 => rw [if_pos h3]; exact h
      next h3 =>
      rw [if_neg h3]
      split at h
      · next h4 => rw [if_pos h4]; exact h
      next h4 =>
      rw [if_neg h4]
      split at h
      · next h5 => rw [if_pos h5]; exact h
      next h5 =>
      rw [if_neg h5]
      split at h
      · next hb => rw [if_pos (isBody_stripCr hb)]; exact h
      · cases h

/-- An update hunk still open for lines has none that is a lone carriage return. -/
theorem step_lone_cr {moved : Bool} {last} (h : last.any (·.isEndOfFile) = false) :
    (updateFile moved last).step ['\r'] = none := by
  have htrim : trimEnd ['\r'] = [] := by decide
  obtain ⟨hctx, hmove, heof, hh⟩ := StreamingPatchParser.not_marker_of_head (u := []) (by decide)
  simp [step, updateStep, htrim, h, hctx, hmove, heof, hh, isBody]

/-- An accepted line whose text is recorded adds more characters with its
carriage return than without; any other adds the same. -/
theorem added_stripCr {s'} (h : s.step line = some s') :
    s.added (stripCr line) + (if line.getLast? = some '\r' ∧ s.records (stripCr line) then 1 else 0) ≤
      s.added line := by
  by_cases hcr : line.getLast? = some '\r'
  · simp only [hcr, true_and]
    have happ := eq_append_cr hcr
    generalize stripCr line = body at happ
    subst happ
    cases s with
    | notStarted | startedPatch | deleteFile | endedPatch => simp [added, records]
    | addFile =>
      cases body with
      | nil => simp [added, records]
      | cons c rest =>
        by_cases hc : c = '+'
        · subst hc; simp [added, records]
        · simp [added, records, hc]
    | updateFile moved last =>
      by_cases he : last.any (·.isEndOfFile)
      · cases body <;> simp [added, records, he]
      cases body with
      | nil =>
        -- A lone carriage return: recorded as an empty line without it, rejected with it.
        rw [List.nil_append, step_lone_cr (by simpa using he)] at h
        cases h
      | cons c rest =>
        simp only [List.cons_append, added, he, records, isBody]
        by_cases hs : c = ' '
        · simp only [hs]
          grind
        · by_cases hpm : c = '+' ∨ c = '-'
          · simp [hs, hpm]
          · have hne : ¬ c = '+' ∧ ¬ c = '-' := not_or.1 hpm
            simp [hs, hne.1, hne.2]
  · simp [stripCr_of_not_cr hcr, hcr]

theorem header_eq_endedPatch {trimmed : Text} (h : header trimmed = some .endedPatch) :
    trimmed = endPatchMarker := by
  simp only [header] at h
  split at h
  · assumption
  · split at h
    · cases h
    · split at h
      · cases h
      · split at h <;> cases h

theorem updateStep_ne_endedPatch (moved : Bool) (last : Option ChunkShape) (line : Text) :
    updateStep moved last line ≠ some .endedPatch := by
  simp only [updateStep]
  repeat' split
  all_goals simp

theorem trim_of_trimEnd_eq (h : trimEnd line = endPatchMarker) : trim line = endPatchMarker := by
  obtain ⟨rest, hline⟩ := List.head?_eq_some_iff.1
    (StreamingPatchParser.head?_trimEnd (c := '*') (by rw [h]; decide))
  have hs : trimStart line = line := by
    rw [hline]
    exact List.dropWhile_cons_of_neg (by decide)
  rw [trim, hs, h]

theorem step_eq_endedPatch (h : s.step line = some .endedPatch) :
    trim line = endPatchMarker ∨ trim line = [] := by
  cases s with
  | notStarted => simp only [step] at h; split at h <;> cases h
  | startedPatch hasId =>
    simp only [step] at h
    split at h
    · split at h <;> cases h
    · exact .inl (header_eq_endedPatch h)
  | addFile =>
    simp only [step] at h
    split at h
    · next hh => rw [Option.some.injEq] at h; subst h; exact .inl (header_eq_endedPatch hh)
    · split at h <;> cases h
  | deleteFile => exact .inl (header_eq_endedPatch h)
  | updateFile moved last =>
    simp only [step] at h
    split at h
    · next hh =>
      split at h
      · rw [Option.some.injEq] at h; subst h
        exact .inl (trim_of_trimEnd_eq (header_eq_endedPatch hh))
      · cases h
    · exact absurd h (updateStep_ne_endedPatch _ _ _)
  | endedPatch =>
    simp only [step] at h
    split at h
    · next ht => exact .inr ht
    · cases h

/-- Some line of a run still ends in a carriage return and has its text recorded. -/
def recordsCr : Shape → List Text → Bool
  | _, [] => false
  | s, l :: ls => (l.getLast? = some '\r' && s.records (stripCr l)) ||
      (s.step (stripCr l)).any fun s' => s'.recordsCr ls

end Shape

namespace StreamingPatchParser

variable {p : StreamingPatchParser}

theorem updateHunkLine_stripCr (path : Text) {movePath chunks}
    {line : Text} (h : (updateShape movePath chunks).records (stripCr line) = false) :
    (updateHunkLine path movePath chunks line).toOption =
      (updateHunkLine path movePath chunks (stripCr line)).toOption := by
  unfold updateHunkLine
  simp only [trimEnd_stripCr]
  split
  · rfl
  split
  · rfl
  next h2 =>
  split
  · rfl
  split
  · rfl
  split
  · rfl
  next hempty =>
  split
  · rfl
  next hctx =>
  split
  · rfl
  -- Neither line is one the hunk records, so both are rejected.
  have hopen : lastChunkIsEndOfFile chunks = false := by
    by_contra he
    exact h2 ⟨by simpa using he, by simp [hempty, not_startsWith_of_stripStart hctx]⟩
  have hb : Shape.isBody (stripCr line) = false := by
    simpa [Shape.records, updateShape, ← lastChunkIsEndOfFile_eq, hopen] using h
  have hb' : Shape.isBody line = false := by
    by_contra hc
    rw [Shape.isBody_stripCr (by simpa using hc)] at hb
    cases hb
  split
  iterate 4 · simp [Shape.isBody] at hb'
  split <;> split <;> first
    | rfl
    | next heq => simp [heq, Shape.isBody] at hb

/-- Where the grammar does not record a line's text, its carriage return does not matter. -/
theorem processLine_stripCr (hp : p.state.Coherent) {line : Text}
    (h : p.state.shape.records (stripCr line) = false) :
    (p.processLine line).toOption = (p.processLine (stripCr line)).toOption := by
  cases hm : p.state.mode with
  | notStarted | startedPatch | deleteFile | endedPatch => simp only [processLine, hm, trim_stripCr]
  | addFile =>
    have hs : p.state.shape = .addFile := by simp [StreamingParserState.shape, hm]
    have hplus : (stripCr line).head? ≠ some '+' := by simpa [hs, Shape.records] using h
    have hplus' : line.head? ≠ some '+' := by rwa [Ne, Shape.head?_stripCr (by decide)]
    simp only [processLine, hm, trim_stripCr]
    split
    · exact absurd rfl hplus'
    split
    · next heq _ => rw [heq] at hplus; exact absurd rfl hplus
    · rfl
  | updateFile n =>
    obtain ⟨path, movePath, chunks, hl, hs⟩ := coherent_update hp hm
    have hu := updateHunkLine_stripCr path (hs ▸ h)
    simp only [processLine, hm, trimEnd_stripCr, hl]
    cases p.handleHunkHeadersAndEndPatch (trimEnd line) with
    | error e => rfl
    | ok o =>
      cases o with
      | some p' => rfl
      | none =>
        simp only [bind, Except.bind]
        cases h1 : updateHunkLine path movePath chunks line <;>
          cases h2 : updateHunkLine path movePath chunks (stripCr line) <;>
          simp_all [Except.toOption]

/-! ## The line driver -/

/-- Lines fed one after the other, each with its line number. -/
def processLines (p : StreamingPatchParser) (ls : List Text) : Except ParseError StreamingPatchParser :=
  ls.foldlM (fun p l => p.takeLine.processLine l) p

theorem processLines_cons (p : StreamingPatchParser) (l : Text) (ls : List Text) :
    p.processLines (l :: ls) = (p.takeLine.processLine l).bind (·.processLines ls) := by
  rfl

/-- A line the parser accepts, read in the grammar. -/
theorem processLine_ok {p'} (hp : p.state.Coherent) {line : Text}
    (h : p.takeLine.processLine line = .ok p') :
    p.state.shape.step line = some p'.state.shape ∧ p'.state.Coherent ∧
      weight p'.state.hunks = weight p.state.hunks + p.state.shape.added line ∧ p'.lineBuffer = [] := by
  have hr := processLine_refines (p := p.takeLine) hp line
  rw [h] at hr
  exact hr

/-- The parser accepts the lines of a run the grammar accepts. -/
theorem processLine_of_step {s} (hp : p.state.Coherent) {line : Text}
    (h : p.state.shape.step line = some s) :
    ∃ p', p.takeLine.processLine line = .ok p' ∧ p'.state.shape = s ∧ p'.state.Coherent := by
  have hr := processLine_refines (p := p.takeLine) hp line
  cases hpl : p.takeLine.processLine line with
  | error e =>
    rw [hpl] at hr
    have : p.state.shape.step line = none := hr
    rw [h] at this; cases this
  | ok p' =>
    rw [hpl] at hr
    obtain ⟨h1, h2, -⟩ := hr
    have h1 : p.state.shape.step line = some p'.state.shape := h1
    rw [h, Option.some.injEq] at h1
    exact ⟨p', rfl, h1.symm, h2⟩

theorem processLines_ok {p'} (hp : p.state.Coherent) {ls} (h : p.processLines ls = .ok p') :
    ls.foldlM Shape.step p.state.shape = some p'.state.shape ∧ p'.state.Coherent := by
  induction ls generalizing p with
  | nil => cases h; exact ⟨rfl, hp⟩
  | cons l ls ih =>
    rw [processLines_cons] at h
    cases hl : p.takeLine.processLine l with
    | error e => rw [hl] at h; cases h
    | ok p₁ =>
      rw [hl] at h
      obtain ⟨hstep, hcoh, -, -⟩ := processLine_ok hp hl
      obtain ⟨hrun, hcoh'⟩ := ih hcoh h
      exact ⟨by rw [List.foldlM_cons, hstep]; exact hrun, hcoh'⟩

theorem processLines_of_run {s} (hp : p.state.Coherent) {ls}
    (h : ls.foldlM Shape.step p.state.shape = some s) :
    ∃ p', p.processLines ls = .ok p' ∧ p'.state.shape = s ∧ p'.state.Coherent := by
  induction ls generalizing p with
  | nil => cases h; exact ⟨p, rfl, rfl, hp⟩
  | cons l ls ih =>
    obtain ⟨s₁, hs₁, hrun⟩ := Option.bind_eq_some_iff.1 h
    obtain ⟨p₁, hp₁, rfl, hcoh⟩ := processLine_of_step hp hs₁
    obtain ⟨p', h1, h2⟩ := ih hcoh hrun
    exact ⟨p', by rw [processLines_cons, hp₁]; exact h1, h2⟩

/-- Lines accepted with their carriage returns are accepted without them, and
hold less text afterwards when one of them was recorded. -/
theorem processLines_stripCr_of_ok {q p' : StreamingPatchParser} (hp : p.state.Coherent)
    (hq : q.state.Coherent) (hpq : q.state.shape = p.state.shape) {ls : List Text}
    (h : p.processLines ls = .ok p') :
    ∃ q', q.processLines (ls.map stripCr) = .ok q' ∧ q'.state.shape = p'.state.shape ∧ q'.state.Coherent ∧
      weight q'.state.hunks + weight p.state.hunks + (if p.state.shape.recordsCr ls then 1 else 0) ≤
        weight p'.state.hunks + weight q.state.hunks := by
  induction ls generalizing p q with
  | nil =>
    cases h
    exact ⟨q, rfl, hpq, hq, by simp [Shape.recordsCr]; omega⟩
  | cons l ls ih =>
    rw [processLines_cons] at h
    cases hl : p.takeLine.processLine l with
    | error e => rw [hl] at h; cases h
    | ok p₁ =>
      rw [hl] at h
      obtain ⟨hstep, hcoh, hw, -⟩ := processLine_ok hp hl
      have hstep' : q.state.shape.step (stripCr l) = some p₁.state.shape := by
        rw [hpq]; exact Shape.step_stripCr hstep
      obtain ⟨q₁, hq₁, hs₁, hc₁⟩ := processLine_of_step hq hstep'
      obtain ⟨-, -, hw', -⟩ := processLine_ok hq hq₁
      obtain ⟨q', hrun, hs', hc', hle⟩ := ih hcoh hc₁ hs₁ h
      refine ⟨q', by rw [List.map_cons, processLines_cons, hq₁]; exact hrun, hs', hc', ?_⟩
      have hadd := Shape.added_stripCr hstep
      simp only [Shape.recordsCr, Shape.step_stripCr hstep, Option.any_some, Bool.or_eq_true,
        Bool.and_eq_true, decide_eq_true_eq]
      split at hadd <;> split at hle <;> split <;> simp_all <;> omega

/-- Lines accepted without their carriage returns, none of which would have
been recorded, give the same parser with them. -/
theorem processLines_eq_of_not_recordsCr {p'} (hp : p.state.Coherent) {ls}
    (h : p.processLines (ls.map stripCr) = .ok p') (hcr : p.state.shape.recordsCr ls = false) :
    p.processLines ls = .ok p' := by
  induction ls generalizing p with
  | nil => exact h
  | cons l ls ih =>
    rw [List.map_cons, processLines_cons] at h
    cases hl : p.takeLine.processLine (stripCr l) with
    | error e => rw [hl] at h; cases h
    | ok p₁ =>
      rw [hl] at h
      obtain ⟨hstep, hcoh, -, -⟩ := processLine_ok hp hl
      simp only [Shape.recordsCr, hstep, Option.any_some, Bool.or_eq_false_iff] at hcr
      have hsame : p.takeLine.processLine l = .ok p₁ := by
        by_cases hend : l.getLast? = some '\r'
        · have hrec : p.state.shape.records (stripCr l) = false := by simpa [hend] using hcr.1
          have heq := processLine_stripCr (p := p.takeLine) hp hrec
          rw [hl] at heq
          cases hl' : p.takeLine.processLine l with
          | error e => rw [hl'] at heq; cases heq
          | ok p₂ => rw [hl'] at heq; cases heq; rfl
        · rwa [stripCr_of_not_cr hend] at hl
      rw [processLines_cons, hsame]
      exact ih hcoh h hcr.2

/-! ## From characters to lines -/

/-- The parser after some text: the lines it has seen, and the rest in the buffer. -/
theorem pushDelta_eq (hp : p.state.Coherent) (hb : '\n' ∉ p.lineBuffer) (s : Text) :
    p.pushDelta s = (({ p with lineBuffer := [] } : StreamingPatchParser).processLines
        ((splitNewlines (p.lineBuffer ++ s)).1.map stripCr)).map
      ({ · with lineBuffer := (splitNewlines (p.lineBuffer ++ s)).2 }) := by
  induction s generalizing p with
  | nil =>
    simp only [List.append_nil, splitNewlines_of_no_newline hb]
    rfl
  | cons c s ih =>
    have hfold : p.pushDelta (c :: s) = (p.pushChar c).bind (·.pushDelta s) := by
      rfl
    rw [hfold, pushChar]
    split
    · next hc =>
      subst hc
      have htake : ({ p with lineBuffer := [] } : StreamingPatchParser).takeLine = p.takeLine := rfl
      rw [splitNewlines_line hb, List.map_cons, processLines_cons, htake]
      cases hl : p.takeLine.processLine (stripCr p.lineBuffer) with
      | error e => rfl
      | ok p₁ =>
        obtain ⟨-, hcoh, -, hbuf⟩ := processLine_ok hp hl
        have hih := ih hcoh (by simp [hbuf])
        have hclear : ({ p₁ with lineBuffer := [] } : StreamingPatchParser) = p₁ := by rw [← hbuf]
        rw [hclear, hbuf, List.nil_append] at hih
        exact hih
    · next hc =>
      have hih := ih (p := { p with lineBuffer := p.lineBuffer ++ [c] }) hp (by simp [hb, Ne.symm hc])
      simp only [List.append_assoc, List.singleton_append] at hih
      exact hih

theorem pushDelta_flatten (p : StreamingPatchParser) (deltas : List Text) :
    deltas.foldlM pushDelta p = p.pushDelta deltas.flatten := by
  induction deltas generalizing p with
  | nil => rfl
  | cons d ds ih =>
    simp only [List.foldlM_cons, List.flatten_cons, pushDelta, List.foldlM_append, ih]

/-- `finish` on a last line that is not blank: only the end marker finishes a
patch, and it closes any hunk that may end. -/
theorem finish_eq (hp : p.state.Coherent) {r : Text} (hr : trim r ≠ []) :
    ({ p with lineBuffer := r } : StreamingPatchParser).finish.toOption =
      if trim r = endPatchMarker ∧ p.state.shape.closable = true then
        some (({ p with lineBuffer := r } : StreamingPatchParser).takeLine.setMode .endedPatch)
      else none := by
  have hne : r ≠ [] := by rintro rfl; exact hr rfl
  generalize hq : ({ p with lineBuffer := r } : StreamingPatchParser) = q
  have hcoh : q.takeLine.state.Coherent := by subst hq; exact hp
  have hshape : q.takeLine.state.shape = p.state.shape := by subst hq; rfl
  have hbuf : q.lineBuffer = r := by subst hq; rfl
  simp only [finish, finishLine, hbuf, List.isEmpty_iff, if_neg hne]
  split
  · next he =>
    have hens := ensureUpdateHunkIsNotEmpty_ok hcoh (trim r)
    rw [hshape] at hens
    cases h : q.takeLine.ensureUpdateHunkIsNotEmpty (trim r) with
    | error e =>
      rw [h] at hens
      rw [if_neg (by rintro ⟨-, hc⟩; cases hens.2 hc)]
      rfl
    | ok u => rw [if_pos ⟨he, hens.1 h⟩]; rfl
  · next he =>
    rw [if_neg (fun hc => he hc.1)]
    have href := processLine_refines hcoh r
    cases h : q.takeLine.processLine r with
    | error e => rfl
    | ok p' =>
      rw [h] at href
      have hmode : p'.state.mode ≠ .endedPatch := by
        intro hm
        have hs : p'.state.shape = .endedPatch := by simp [StreamingParserState.shape, hm]
        rw [LineOutcome, hs] at href
        exact (Shape.step_eq_endedPatch href.1).elim he hr
      simp [bind, Except.bind, hmode, Except.toOption]

end StreamingPatchParser

open StreamingPatchParser

theorem coherent_fresh : ({} : StreamingPatchParser).state.Coherent := ⟨rfl, rfl⟩

/-- A fresh parser given terminated lines and an unterminated rest. -/
def driver (ls : List Text) (r : Text) : Option (List Hunk × Option Text) := do
  let p ← (({} : StreamingPatchParser).processLines ls).toOption
  let p ← ({ p with lineBuffer := r } : StreamingPatchParser).finish.toOption
  return (p.state.hunks, p.state.environmentId)

theorem pushDelta_finish_eq_driver (s : Text) :
    (do let p ← ({} : StreamingPatchParser).pushDelta s
        let p ← p.finish
        return (p.state.hunks, p.state.environmentId)).toOption =
      driver ((splitNewlines s).1.map stripCr) (splitNewlines s).2 := by
  rw [pushDelta_eq coherent_fresh (by simp)]
  simp only [List.nil_append, driver]
  cases ({} : StreamingPatchParser).processLines ((splitNewlines s).1.map stripCr) with
  | error e => rfl
  | ok p =>
    simp only [Except.map, bind, Except.bind, Except.toOption, Option.bind_some]
    cases ({ p with lineBuffer := (splitNewlines s).2 } : StreamingPatchParser).finish <;> rfl

theorem streamPatch_eq_driver (deltas : List Text) :
    (streamPatch deltas).toOption =
      driver ((splitNewlines deltas.flatten).1.map stripCr) (splitNewlines deltas.flatten).2 := by
  rw [← pushDelta_finish_eq_driver, streamPatch, pushDelta_flatten]

theorem driver_eq {ls} {r : Text} (hr : trim r ≠ []) :
    driver ls r = (({} : StreamingPatchParser).processLines ls).toOption.bind fun p =>
      if trim r = endPatchMarker ∧ p.state.shape.closable = true then
        some (p.state.hunks, p.state.environmentId)
      else none := by
  simp only [driver]
  cases h : ({} : StreamingPatchParser).processLines ls with
  | error e => rfl
  | ok p =>
    obtain ⟨-, hcoh⟩ := processLines_ok coherent_fresh h
    change (({ p with lineBuffer := r } : StreamingPatchParser).finish.toOption.bind fun p =>
      some (p.state.hunks, p.state.environmentId)) = _
    rw [finish_eq hcoh hr]
    simp only [Except.toOption, Option.bind_some]
    split <;> rfl

/-! ## The two drivers compared -/

/-- A patch the line grammar accepts, its terminated lines taken without trailing carriage returns
(as many as the whole-text driver removes). -/
def WellFormed (patch : Text) : Bool :=
  !(splitNewlines patch).1.isEmpty &&
    (((splitNewlines patch).1.map fun l => stripCr (stripCr l)).foldlM Shape.step .notStarted).any
      (·.finishes (splitNewlines patch).2)

/-- Some line of the patch whose text a hunk records ends in two carriage returns before its newline. -/
def recordsCr (patch : Text) : Bool :=
  Shape.notStarted.recordsCr ((splitNewlines patch).1.map stripCr)

variable {r : Text}

theorem finishes_iff {s : Shape} (hr : trim r ≠ []) :
    s.finishes r = true ↔ trim r = endPatchMarker ∧ s.closable = true := by
  simp only [Shape.finishes]
  split
  · next h => simp [h]
  · next h =>
    simp only [decide_eq_true_eq, h, false_and, iff_false]
    exact fun hs => (Shape.step_eq_endedPatch hs).elim h hr

theorem parsePatch_nil : (parsePatch []).toOption = none := by decide

theorem checkStartAndEndLinesStrict_single (l : Text) :
    ∃ e, checkStartAndEndLinesStrict (some l) (some l) = .error e := by
  have hne : beginPatchMarker ≠ endPatchMarker := by decide
  simp only [checkStartAndEndLinesStrict, Option.map_some]
  rw [if_neg (by rintro ⟨h1, h2⟩; exact hne (h1 ▸ h2))]
  split <;> exact ⟨_, rfl⟩

/-- What the whole-text driver checks before it parses. -/
theorem checkPatchBoundariesLenient_eq {ls} {l : Text} (hdoc : isHeredoc (l :: ls ++ [r]) = false) :
    (checkPatchBoundariesLenient (l :: ls ++ [r])).toOption =
      if trim l = beginPatchMarker ∧ trim r = endPatchMarker then some (l :: ls ++ [r]) else none := by
  have hlast : (l :: ls ++ [r]).getLast? = some r := List.getLast?_concat
  have hhead : (l :: ls ++ [r]).head? = some l := rfl
  simp only [checkPatchBoundariesLenient, hdoc, checkPatchBoundariesStrict, hhead, hlast,
    checkStartAndEndLinesStrict, Option.map_some]
  by_cases h : trim l = beginPatchMarker ∧ trim r = endPatchMarker
  · rw [if_pos h, if_pos h]; rfl
  · rw [if_neg h, if_neg h]
    by_cases hl : trim l ≠ beginPatchMarker
    · rw [if_pos hl]; rfl
    · rw [if_neg hl]; rfl

/-- **The whole-text driver** parses the lines of a text without two carriage returns each. -/
theorem parsePatch_eq_driver {patch : Text} (htrim : trim patch = patch)
    (hdoc : isHeredoc (lines patch) = false) :
    (parsePatch patch).toOption.map (fun a => (a.hunks, a.environmentId)) =
      if (splitNewlines patch).1 = [] then none
      else driver ((splitNewlines patch).1.map fun l => stripCr (stripCr l)) (splitNewlines patch).2 := by
  by_cases hnil : patch = []
  · subst hnil; rw [parsePatch_nil]; rfl
  have hr := trim_rest_ne_nil hnil htrim
  obtain ⟨hnl, hnr⟩ := splitNewlines_no_newline patch
  have hparse : (parsePatch patch).toOption.map (fun a => (a.hunks, a.environmentId)) =
      (checkPatchBoundariesLenient (lines patch)).toOption.bind fun ls =>
        driver ((splitNewlines (joinLines ls)).1.map stripCr) (splitNewlines (joinLines ls)).2 := by
    simp only [parsePatch, parsePatchText, htrim]
    cases checkPatchBoundariesLenient (lines patch) with
    | error e => rfl
    | ok ls =>
      rw [Except.toOption, Option.bind_some, ← pushDelta_finish_eq_driver]
      simp only [bind, Except.bind]
      cases ({} : StreamingPatchParser).pushDelta (joinLines ls) with
      | error e => rfl
      | ok p =>
        simp only
        cases p.finish <;> rfl
  have hrne : (splitNewlines patch).2 ≠ [] := by
    intro h; rw [h] at hr; exact hr rfl
  have hlines : lines patch = (splitNewlines patch).1.map stripCr ++ [(splitNewlines patch).2] := by
    simp only [lines, if_neg hrne]
  rw [hparse, hlines]
  rw [hlines] at hdoc
  generalize (splitNewlines patch).1 = segs at *
  generalize (splitNewlines patch).2 = r at *
  cases segs with
  | nil =>
    obtain ⟨e, he⟩ := checkStartAndEndLinesStrict_single r
    have hcheck : checkPatchBoundariesLenient ([] ++ [r]) = .error e := by
      simp only [checkPatchBoundariesLenient, checkPatchBoundariesStrict, List.nil_append, List.head?_cons,
        List.getLast?_singleton, he]
      simp only [List.map_nil, List.nil_append] at hdoc
      simp only [hdoc]
      rfl
    simp only [List.map_nil, hcheck]
    rfl
  | cons l segs =>
    rw [if_neg (List.cons_ne_nil _ _), List.map_cons] at *
    rw [checkPatchBoundariesLenient_eq hdoc, trim_stripCr]
    split
    · have hls : ∀ x ∈ (l :: segs).map stripCr, '\n' ∉ x := by
        intro x hx
        obtain ⟨y, hy, rfl⟩ := List.mem_map.1 hx
        exact not_mem_stripCr (hnl y hy)
      have hsplit : splitNewlines (joinLines (stripCr l :: segs.map stripCr ++ [r])) =
          ((l :: segs).map stripCr, r) := splitNewlines_joinLines hls hnr
      rw [Option.bind_some, hsplit, List.map_map]
      rfl
    · next h =>
      rw [Option.bind_none, driver_eq hr]
      by_cases hbegin : trim l = beginPatchMarker
      · have hend : trim r ≠ endPatchMarker := fun hc => h ⟨hbegin, hc⟩
        simp [hend]
      · have hfirst : ({} : StreamingPatchParser).takeLine.processLine (stripCr (stripCr l)) =
            .error (.invalidPatchError firstLineMessage) := by
          simp only [processLine, trim_stripCr]
          exact if_neg hbegin
        rw [List.map_cons, processLines_cons, hfirst]
        rfl

/-- The two drivers, on the lines they feed: the grammar accepts the lines with
their carriage returns and without, and none of them is recorded. -/
theorem driver_stripCr_eq_iff {ls : List Text} {r : Text} (hr : trim r ≠ []) :
    driver ls r = driver (ls.map stripCr) r ↔
      (((ls.map stripCr).foldlM Shape.step .notStarted).any (·.finishes r) = true →
        Shape.notStarted.recordsCr ls = false) := by
  rw [driver_eq hr, driver_eq hr]
  -- Whatever the run with carriage returns does, the run without them does too.
  have hsim {p : StreamingPatchParser} (h : ({} : StreamingPatchParser).processLines ls = .ok p) :=
    processLines_stripCr_of_ok coherent_fresh coherent_fresh rfl h
  cases hb : ({} : StreamingPatchParser).processLines (ls.map stripCr) with
  | error e =>
    have hrun : (ls.map stripCr).foldlM Shape.step .notStarted = none := by
      by_contra hne
      obtain ⟨s, hs⟩ := Option.ne_none_iff_exists'.1 hne
      obtain ⟨q, hq, -⟩ := processLines_of_run coherent_fresh hs
      rw [hb] at hq; cases hq
    cases ha : ({} : StreamingPatchParser).processLines ls with
    | error e => simp [hrun, Except.toOption]
    | ok p =>
      obtain ⟨q, hq, -⟩ := hsim ha
      rw [hb] at hq; cases hq
  | ok q =>
    obtain ⟨hrun, -⟩ := processLines_ok coherent_fresh hb
    have hrun : (ls.map stripCr).foldlM Shape.step .notStarted = some q.state.shape := hrun
    simp only [hrun, Option.any_some, finishes_iff hr]
    by_cases hfin : trim r = endPatchMarker ∧ q.state.shape.closable = true
    · rw [show (Except.ok q : Except ParseError _).toOption = some q from rfl, Option.bind_some, if_pos hfin]
      constructor
      · intro heq _
        by_contra hrec
        cases ha : ({} : StreamingPatchParser).processLines ls with
        | error e => rw [ha] at heq; cases heq
        | ok p =>
          obtain ⟨q', hq', hshape, -, hw⟩ := hsim ha
          rw [hb] at hq'; cases hq'
          rw [ha] at heq
          simp only [Except.toOption, Option.bind_some, ← hshape, hfin, and_self, if_true, Option.some.injEq,
            Prod.mk.injEq] at heq
          have hflag : Shape.notStarted.recordsCr ls = true := by simpa using hrec
          have hw : weight q.state.hunks + 0 + (if Shape.notStarted.recordsCr ls then 1 else 0) ≤
            weight p.state.hunks + 0 := hw
          rw [heq.1, hflag] at hw
          simp only [Nat.add_zero, if_true] at hw
          omega
      · intro hrec
        rw [processLines_eq_of_not_recordsCr coherent_fresh hb (hrec hfin)]
        exact if_pos hfin
    · simp only [hfin, false_implies, iff_true]
      cases ha : ({} : StreamingPatchParser).processLines ls with
      | error e => simp [Except.toOption, hfin]
      | ok p =>
        obtain ⟨q', hq', hshape, -⟩ := hsim ha
        rw [hb] at hq'; cases hq'
        simp [Except.toOption, ← hshape, hfin]

/-- A fresh parser given one unterminated line accepts only the bare end marker. -/
theorem driver_nil (hr : trim r ≠ []) : driver [] r = none ↔ trim r ≠ endPatchMarker := by
  rw [driver_eq hr]
  have hclosable : ({} : StreamingPatchParser).state.shape.closable = true := rfl
  have hrun : ({} : StreamingPatchParser).processLines [] = .ok {} := rfl
  by_cases h : trim r = endPatchMarker <;> simp [hrun, Except.toOption, h, hclosable]

/-- **Streaming and whole-text parsing agree** exactly on the patches that are
not the bare end marker and, where the grammar accepts them, record no line
that ends in two carriage returns. -/
theorem streamPatch_eq_parsePatch_iff {patch : Text} {deltas : List Text} (hsplit : deltas.flatten = patch)
    (htrim : trim patch = patch) (hdoc : isHeredoc (lines patch) = false) :
    (streamPatch deltas).toOption =
        (parsePatch patch).toOption.map (fun args => (args.hunks, args.environmentId)) ↔
      patch ≠ endPatchMarker ∧ (WellFormed patch = true → recordsCr patch = false) := by
  rw [streamPatch_eq_driver, hsplit, parsePatch_eq_driver htrim hdoc]
  by_cases hnil : patch = []
  · subst hnil
    decide
  have hr := trim_rest_ne_nil hnil htrim
  by_cases hsegs : (splitNewlines patch).1 = []
  · have hrest : (splitNewlines patch).2 = patch := by
      simpa [hsegs] using splitNewlines_flatten patch
    rw [hrest, htrim] at hr
    simp only [hsegs, if_true, List.map_nil, WellFormed, hrest, driver_nil (show trim patch ≠ [] from htrim.symm ▸ hr), htrim]
    simp
  · rw [if_neg hsegs]
    have hmulti : patch ≠ endPatchMarker := by
      rintro rfl
      exact hsegs (by decide)
    have hmap : ((splitNewlines patch).1.map fun l => stripCr (stripCr l)) =
        ((splitNewlines patch).1.map stripCr).map stripCr := by simp
    rw [hmap, driver_stripCr_eq_iff hr, WellFormed, recordsCr, hmap]
    simp [hsegs, hmulti]

theorem streamPatch_eq_parsePatch_delete :
    (streamPatch ["*** Begin Patch\r\n*** Del".toList, "ete File: a\n*** End Patch".toList]).toOption =
      (parsePatch "*** Begin Patch\r\n*** Delete File: a\n*** End Patch".toList).toOption.map
        (fun args => (args.hunks, args.environmentId)) :=
  (streamPatch_eq_parsePatch_iff (by decide) (by decide) (by decide)).2 (by decide)

/-- A removed line that ends in two carriage returns keeps one of them in the
streamed hunk and none in the other; the bare end marker is accepted only in
pieces. -/
theorem streamPatch_ne_parsePatch :
    (let patch := "*** Begin Patch\n*** Update File: a\n@@\n-old\r\r\n+new\n*** End Patch".toList
     trim patch = patch ∧ isHeredoc (lines patch) = false ∧
      (streamPatch [patch]).toOption ≠
        (parsePatch patch).toOption.map (fun args => (args.hunks, args.environmentId))) ∧
    (let patch := "*** End Patch".toList
     trim patch = patch ∧ isHeredoc (lines patch) = false ∧
      (streamPatch [patch]).toOption = some ([], none) ∧ (parsePatch patch).toOption = none) := by
  set_option maxRecDepth 4000 in decide

end Codex.Patch
