/-
The hunks of a streamed patch only grow (`apply-patch/src/streaming_parser.rs`). A line
that is accepted changes nothing, pushes a hunk or writes to the last one, and what it
writes there extends it (`processLine_grows`): text behind the contents, a destination
where there was none, lines in the last chunk or a chunk behind it. What a user has been shown of
a patch is therefore part of the patch.
-/
import Codex.Lib.LastGrows
import Codex.Lib.Results
import Codex.PatchStream

namespace Codex.Patch

open Text
open Results (bind_eq_ok)

/-- The chunk got lines. -/
structure UpdateFileChunk.Grows (chunk chunk' : UpdateFileChunk) : Prop where
  changeContext : chunk'.changeContext = chunk.changeContext
  oldLines : chunk.oldLines <+: chunk'.oldLines
  newLines : chunk.newLines <+: chunk'.newLines

theorem UpdateFileChunk.Grows.trans {a b c : UpdateFileChunk} (h : a.Grows b) (h' : b.Grows c) : a.Grows c :=
  ⟨h'.changeContext.trans h.changeContext, h.oldLines.trans h'.oldLines, h.newLines.trans h'.newLines⟩

/-- The hunk of the same kind for the same path, with more to it. -/
inductive Hunk.Grows : Hunk → Hunk → Prop where
  | addFile (path : Text) {contents contents' : Text} (h : contents <+: contents') :
    Grows (.addFile path contents) (.addFile path contents')
  | deleteFile (path : Text) : Grows (.deleteFile path) (.deleteFile path)
  | updateFile (path : Text) {movePath movePath' : Option Text} {chunks chunks' : List UpdateFileChunk}
    (hmove : movePath = none ∨ movePath' = movePath) (hchunks : LastGrows UpdateFileChunk.Grows chunks chunks') :
    Grows (.updateFile path movePath chunks) (.updateFile path movePath' chunks')

theorem Hunk.Grows.refl (hunk : Hunk) : hunk.Grows hunk := by
  cases hunk with
  | addFile path contents => exact .addFile path List.prefix_rfl
  | deleteFile path => exact .deleteFile path
  | updateFile path movePath chunks => exact .updateFile path (.inr rfl) (.refl _ chunks)

theorem Hunk.Grows.trans {a b c : Hunk} (h : a.Grows b) (h' : b.Grows c) : a.Grows c := by
  cases h with
  | addFile path h =>
    cases h' with
    | addFile _ h' => exact .addFile path (h.trans h')
  | deleteFile path => exact h'
  | updateFile path hmove hchunks =>
    cases h' with
    | updateFile _ hmove' hchunks' =>
      refine .updateFile path ?_ (hchunks.trans UpdateFileChunk.Grows.trans hchunks')
      rcases hmove with hmove | rfl
      · exact .inl hmove
      · exact hmove'

/-! ## The lines of a hunk -/

theorem modifyLastChunk_grows {f : UpdateFileChunk → UpdateFileChunk} (hf : ∀ chunk : UpdateFileChunk, chunk.Grows (f chunk))
    (chunks : List UpdateFileChunk) : LastGrows UpdateFileChunk.Grows chunks (modifyLastChunk f chunks) := by
  rw [modifyLastChunk]
  split
  next chunk hlast => exact .setLast (hf chunk) hlast
  next => exact .refl _ chunks

theorem recordLine_grows {f : UpdateFileChunk → UpdateFileChunk} (hf : ∀ chunk : UpdateFileChunk, chunk.Grows (f chunk))
    (chunks : List UpdateFileChunk) : LastGrows UpdateFileChunk.Grows chunks (recordLine f chunks) := by
  rw [recordLine]
  split
  next hempty =>
    rw [List.isEmpty_iff.1 hempty]
    exact .nil _
  next => exact modifyLastChunk_grows hf chunks

namespace StreamingPatchParser

theorem updateHunkLine_grows {path : Text} {movePath chunks} {line : Text} {hunk : Hunk}
    (h : updateHunkLine path movePath chunks line = .ok hunk) : (Hunk.updateFile path movePath chunks).Grows hunk := by
  have hkeeps : ∀ {chunks' : List UpdateFileChunk}, LastGrows UpdateFileChunk.Grows chunks chunks' →
      (Except.ok (.updateFile path movePath chunks') : Except String Hunk) = .ok hunk →
      (Hunk.updateFile path movePath chunks).Grows hunk := by
    intro chunks' hchunks hok
    cases hok
    exact .updateFile path (.inr rfl) hchunks
  have happend := LastGrows.append UpdateFileChunk.Grows chunks
  unfold updateHunkLine at h
  dsimp only at h
  split at h
  · exact hkeeps (.refl _ chunks) h
  split at h
  · cases h
  split at h
  next hmove _ =>
    -- the move marker: there was no destination
    cases h
    exact .updateFile path (.inl (Option.isNone_iff_eq_none.1 (Bool.and_eq_true_iff.1 hmove).2)) (.refl _ chunks)
  next =>
    split at h
    · cases h
    split at h
    · exact hkeeps (happend _) h
    split at h
    · exact hkeeps (happend _) h
    split at h
    · split at h
      · cases h
      · refine hkeeps (modifyLastChunk_grows ?_ chunks) h
        exact fun chunk => ⟨rfl, List.prefix_rfl, List.prefix_rfl⟩
    split at h
    · refine hkeeps (recordLine_grows ?_ chunks) h
      exact fun chunk => ⟨rfl, List.prefix_append chunk.oldLines _, List.prefix_append chunk.newLines _⟩
    · refine hkeeps (recordLine_grows ?_ chunks) h
      exact fun chunk => ⟨rfl, List.prefix_append chunk.oldLines _, List.prefix_append chunk.newLines _⟩
    · refine hkeeps (recordLine_grows ?_ chunks) h
      exact fun chunk => ⟨rfl, List.prefix_rfl, List.prefix_append chunk.newLines _⟩
    · refine hkeeps (recordLine_grows ?_ chunks) h
      exact fun chunk => ⟨rfl, List.prefix_append chunk.oldLines _, List.prefix_rfl⟩
    · split at h <;> cases h

/-! ## A line -/

variable {p p' : StreamingPatchParser}

/-- A header pushes a hunk or changes none. -/
theorem handleHunkHeadersAndEndPatch_grows {trimmed : Text} (h : p.handleHunkHeadersAndEndPatch trimmed = .ok (some p')) :
    LastGrows Hunk.Grows p.state.hunks p'.state.hunks := by
  have hpushed : ∀ {hunk : Hunk} {mode : StreamingParserMode},
      (p.ensureUpdateHunkIsNotEmpty trimmed >>= fun _ => .ok (some (p.pushHunk hunk mode))) = .ok (some p') →
      LastGrows Hunk.Grows p.state.hunks p'.state.hunks := by
    intro hunk mode hok
    obtain ⟨-, -, hok⟩ := bind_eq_ok.1 hok
    cases hok
    exact .append _ _ [hunk]
  unfold handleHunkHeadersAndEndPatch at h
  split at h
  · split at h
    · cases h
    split at h
    · cases h
    · cases h
      exact .refl _ _
  split at h
  · obtain ⟨-, -, hok⟩ := bind_eq_ok.1 h
    cases hok
    exact .refl _ _
  split at h
  · exact hpushed h
  split at h
  · exact hpushed h
  split at h
  · exact hpushed h
  · cases h

/-- **A line extends the hunks**, whatever the mode is. -/
theorem processLine_grows {line : Text} (h : p.processLine line = .ok p') :
    LastGrows Hunk.Grows p.state.hunks p'.state.hunks := by
  have hheader : ∀ {trimmed : Text} {rest : Option StreamingPatchParser → Except ParseError StreamingPatchParser},
      (p.handleHunkHeadersAndEndPatch trimmed >>= rest) = .ok p' → (∀ q, rest (some q) = .ok q) →
      (rest none = .ok p' → LastGrows Hunk.Grows p.state.hunks p'.state.hunks) →
      LastGrows Hunk.Grows p.state.hunks p'.state.hunks := by
    intro trimmed rest hok hsome hrest
    obtain ⟨found, hfound, hok⟩ := bind_eq_ok.1 hok
    cases found with
    | none => exact hrest hok
    | some q =>
      rw [hsome] at hok
      cases hok
      exact handleHunkHeadersAndEndPatch_grows hfound
  unfold processLine at h
  dsimp only at h
  split at h
  next =>
    split at h
    · cases h
      exact .refl _ _
    · cases h
  next => exact hheader h (fun _ => rfl) fun hinvalid => by cases hinvalid
  next => exact hheader h (fun _ => rfl) fun hinvalid => by cases hinvalid
  next =>
    refine hheader h (fun _ => rfl) fun hadded => ?_
    dsimp only at hadded
    split at hadded
    next hlast =>
      cases hadded
      refine .setLast (.addFile _ ?_) hlast
      rw [List.append_assoc]
      exact List.prefix_append _ _
    next => cases hadded
  next =>
    refine hheader h (fun _ => rfl) fun hupdated => ?_
    dsimp only at hupdated
    split at hupdated
    next hlast =>
      split at hupdated
      next hline =>
        cases hupdated
        exact .setLast (updateHunkLine_grows hline) hlast
      next => cases hupdated
    next => cases hupdated
  next =>
    split at h
    · cases h
      exact .refl _ _
    · cases h

/-! ## A text -/

theorem pushChar_grows {ch : Char} (h : p.pushChar ch = .ok p') : LastGrows Hunk.Grows p.state.hunks p'.state.hunks := by
  rw [pushChar] at h
  split at h
  · exact processLine_grows (p := p.takeLine) h
  · cases h
    exact .refl _ _

theorem pushDelta_grows {delta : Text} (h : p.pushDelta delta = .ok p') :
    LastGrows Hunk.Grows p.state.hunks p'.state.hunks := by
  induction delta generalizing p with
  | nil =>
    cases h
    exact .refl _ _
  | cons ch delta ih =>
    obtain ⟨q, hq, h⟩ := bind_eq_ok.1 h
    exact (pushChar_grows hq).trans Hunk.Grows.trans (ih h)

theorem finish_grows (h : p.finish = .ok p') : LastGrows Hunk.Grows p.state.hunks p'.state.hunks := by
  have hended : ∀ {r : Except ParseError StreamingPatchParser},
      (r >>= fun q => if q.state.mode = .endedPatch then pure q else .error (.invalidPatchError lastLineMessage)) = .ok p' →
      r = .ok p' := by
    intro r hr
    obtain ⟨q, hq, hr⟩ := bind_eq_ok.1 hr
    split at hr
    · cases hr
      exact hq
    · cases hr
  rw [finish] at h
  split at h
  · cases hended h
    exact .refl _ _
  have hline := hended h
  rw [finishLine] at hline
  split at hline
  · obtain ⟨-, -, hline⟩ := bind_eq_ok.1 hline
    cases hline
    exact .refl _ _
  · exact processLine_grows (p := p.takeLine) hline

/-- **Streamed hunks only grow**, with only the last hunk extended, in whatever pieces the text is fed. -/
theorem streamedHunks_grow {deltas more : List Text} (hmore : deltas.flatten <+: more.flatten)
    (hp : deltas.foldlM pushDelta {} = .ok p) (hp' : more.foldlM pushDelta {} = .ok p') :
    (p.state.hunks = [] ∨ ∃ front hunk hunk' rest, p.state.hunks = front ++ [hunk] ∧
      p'.state.hunks = front ++ hunk' :: rest ∧ hunk.Grows hunk') ∧
    ∀ p'', p'.finish = .ok p'' → p.state.hunks = [] ∨ ∃ front hunk hunk' rest, p.state.hunks = front ++ [hunk] ∧
      p''.state.hunks = front ++ hunk' :: rest ∧ hunk.Grows hunk' := by
  obtain ⟨rest, hrest⟩ := hmore
  rw [pushDelta_flatten] at hp hp'
  rw [← hrest, pushDelta, List.foldlM_append] at hp'
  obtain ⟨q, hq, hp'⟩ := bind_eq_ok.1 hp'
  cases hp.symm.trans hq
  have hgrows := pushDelta_grows hp'
  exact ⟨(LastGrows.iff_exists Hunk.Grows.refl).1 hgrows, fun p'' hp'' =>
    (LastGrows.iff_exists Hunk.Grows.refl).1 (hgrows.trans Hunk.Grows.trans (finish_grows hp''))⟩

/-- The file of an added hunk, before and after its one line. -/
theorem streamedHunks_grow_addFile :
    [Hunk.addFile ['a'] []] = [] ∨ ∃ front hunk hunk' rest, [Hunk.addFile ['a'] []] = front ++ [hunk] ∧
      [Hunk.addFile ['a'] ['x', '\n']] = front ++ hunk' :: rest ∧ hunk.Grows hunk' :=
  (@streamedHunks_grow ⟨[], ⟨.addFile, [.addFile ['a'] []], none⟩, 2⟩ ⟨[], ⟨.addFile, [.addFile ['a'] ['x', '\n']], none⟩, 3⟩
    ["*** Begin Patch\n*** Add".toList, " File: a\n".toList] ["*** Begin Patch\n*** Add File: a\n+".toList, "x\n".toList]
    (by decide) (by decide +kernel) (by decide +kernel)).1

end StreamingPatchParser

end Codex.Patch
