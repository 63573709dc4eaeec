/-
Replacements that overlap. A chunk with old lines is looked for behind what the chunks
before it replace, but one for the end of the file at the end alone, so that it may replace
lines already replaced; and a pure addition is put before a final empty line, where a chunk
that replaces this line takes it away again. `Safe` says of two replacements, in the order of their chunks, that their
ranges do not overlap and that what one puts in is not taken away with the other's range.

Source: apply-patch/src/lib.rs, seek_sequence.rs.
-/
import Codex.PatchBounds
import Codex.PatchRewriting

namespace Codex.Patch

open Splices Text

/-! ## Replacements that keep apart -/

/-- Those that replace lines. -/
def replacing (replacements : List Replacement) : List Replacement := replacements.filter fun r => decide (r.oldLen ≠ 0)

def Replacement.marked (r : Replacement) : Splice (Text × Bool) := ⟨r.startIndex, r.oldLen, r.newLines.map (·, true)⟩

/-- `apply_replacements` on lines that tell whether they have been put in. -/
def applyMarked (lines : List Text) (replacements : List Replacement) : List (Text × Bool) :=
  (replacements.map Replacement.marked).foldr Splice.apply (lines.map (·, false))

/-- The ranges are apart and in the order of the chunks, and the lines that are put in are all there in the end. -/
structure KeepsApart (lines : List Text) (collected sorted : List Replacement) : Prop where
  inOrder : replacing sorted = replacing collected
  disjoint : (replacing sorted).Pairwise fun r r' => r.startIndex + r.oldLen ≤ r'.startIndex
  kept : ((applyMarked lines sorted).filter Prod.snd).map Prod.fst = sorted.flatMap Replacement.newLines

/-- The replacements pushed for the chunks keep apart in the list that is returned. -/
def ReplacesApart (lines : List Text) (path : Text) (chunks : List UpdateFileChunk) : Prop :=
  ∀ collected sorted, collectReplacements lines path 0 chunks = .ok collected →
    computeReplacements lines path chunks = .ok sorted → KeepsApart lines collected sorted

/-! ## Pair by pair -/

/-- Of two chunks, the first and a later one. -/
def Safe (r r' : Replacement) : Prop :=
  Apart r.marked r'.marked ∧
    if r.startIndex ≤ r'.startIndex then Clear r.marked r'.marked else Clear r'.marked r.marked

theorem pairwise_replacing (replacements : List Replacement) :
    ((replacing replacements).Pairwise fun r r' => r.startIndex + r.oldLen ≤ r'.startIndex) ↔
      replacements.Pairwise fun r r' => Apart r.marked r'.marked := by
  rw [replacing, List.pairwise_filter]
  refine iff_of_eq (congrArg (List.Pairwise · replacements) ?_)
  funext r r'
  simp only [decide_eq_true_eq, Apart, Replacement.marked, eq_iff_iff]
  tauto

/-- Ranges in the order of their chunks are in that order when they are sorted. -/
theorem replacing_sortByStart {collected}
    (h : (replacing collected).Pairwise fun r r' => r.startIndex + r.oldLen ≤ r'.startIndex) :
    replacing (sortByStart collected) = replacing collected := by
  have hsorted : (replacing collected).Pairwise fun a b => a.startIndex ≤ b.startIndex := h.imp fun hle => by omega
  have hsub := (List.sublist_insertionSort hsorted List.filter_sublist).filter fun r => decide (r.oldLen ≠ 0)
  have hperm := (List.perm_insertionSort (fun a b : Replacement => a.startIndex ≤ b.startIndex) collected).filter
    fun r => decide (r.oldLen ≠ 0)
  simp only [replacing, List.filter_filter, Bool.and_self] at hsub
  exact (hsub.eq_of_length hperm.length_eq.symm).symm

theorem pairwise_sortByStart_iff {P : Replacement → Replacement → Prop} (collected : List Replacement) :
    (sortByStart collected).Pairwise P ↔
      collected.Pairwise fun r r' => if r.startIndex ≤ r'.startIndex then P r r' else P r' r :=
  pairwise_insertionSort_iff (r := fun a b : Replacement => a.startIndex ≤ b.startIndex) (fun _ _ _ => Nat.le_trans)
    (fun _ _ => Nat.le_total ..) collected

theorem map_fst_eq_iff {marked : List (Text × Bool)} {lines : List Text} (h : ∀ x ∈ marked, x.2 = true) :
    marked.map Prod.fst = lines ↔ marked = lines.map (·, true) := by
  constructor
  · rintro rfl
    rw [List.map_map]
    refine ((List.map_congr_left ?_).trans (List.map_id marked)).symm
    intro x hx
    exact Prod.ext rfl (h x hx).symm
  · rintro rfl
    simp [Function.comp_def]

/-- All lines that are put in stay, pair by pair of the sorted list. -/
theorem kept_iff_clear {lines : List Text} {sorted : List Replacement}
    (hsorted : sorted.Pairwise fun a b => a.startIndex ≤ b.startIndex)
    (hin : ∀ r ∈ sorted, r.startIndex + r.oldLen ≤ lines.length)
    (hapart : sorted.Pairwise fun r r' => Apart r.marked r'.marked) :
    ((applyMarked lines sorted).filter Prod.snd).map Prod.fst = sorted.flatMap Replacement.newLines ↔
      sorted.Pairwise fun r r' => Clear r.marked r'.marked := by
  have hlines : ∀ x ∈ lines.map (·, false), x.2 = false := by simp
  have htexts : ∀ s ∈ sorted.map Replacement.marked, ∀ x ∈ s.text, x.2 = true := by simp [Replacement.marked]
  have hiff := filter_foldr_eq_iff hlines htexts (List.pairwise_map.2 hsorted)
    (by simpa [Replacement.marked] using hin) (List.pairwise_map.2 hapart)
  rw [List.pairwise_map] at hiff
  rw [← hiff]
  have hput : (sorted.map Replacement.marked).flatMap Splice.text = (sorted.flatMap Replacement.newLines).map (·, true) := by
    rw [List.flatMap_map, List.map_flatMap]
    rfl
  rw [hput]
  refine map_fst_eq_iff ?_
  intro x hx
  exact (List.mem_filter.1 hx).2

/-- **Keeping apart, pair by pair.** -/
theorem keepsApart_iff_safe {lines collected}
    (hin : ∀ r ∈ collected, r.startIndex + r.oldLen ≤ lines.length) :
    KeepsApart lines collected (sortByStart collected) ↔ collected.Pairwise Safe := by
  have hsafe : collected.Pairwise Safe ↔ collected.Pairwise (fun r r' => Apart r.marked r'.marked) ∧
      collected.Pairwise fun r r' =>
        if r.startIndex ≤ r'.startIndex then Clear r.marked r'.marked else Clear r'.marked r.marked :=
    List.pairwise_and_iff
  have hkept : (sortByStart collected).Pairwise (fun r r' => Apart r.marked r'.marked) → _ :=
    kept_iff_clear (pairwise_sortByStart collected) fun r hr => hin r (mem_sortByStart.1 hr)
  rw [hsafe, ← pairwise_replacing, ← pairwise_sortByStart_iff]
  constructor
  · rintro ⟨horder, hdisjoint, hall⟩
    exact ⟨horder ▸ hdisjoint, (hkept ((pairwise_replacing _).1 hdisjoint)).1 hall⟩
  · rintro ⟨hdisjoint, hclear⟩
    have horder := replacing_sortByStart hdisjoint
    have hsorted := horder.symm ▸ hdisjoint
    exact ⟨horder, hsorted, (hkept ((pairwise_replacing _).1 hsorted)).2 hclear⟩

/-! ## A reading of the chunks from left to right -/

/-- How many lines a chunk with old lines replaces, and the lines behind them: one for the end of the file
those that end it, another the first match in the lines left. -/
def place (lines left : List Text) (chunk : UpdateFileChunk) : Option (Nat × List Text) :=
  if chunk.isEndOfFile then
    if MatchesAt lines chunk.oldLines (endPosition lines chunk.oldLines) then some (chunk.oldLines.length, [])
    else if chunk.oldLines.getLast? = some [] then
      if chunk.oldLines.dropLast = [] then some (0, left)
      else if MatchesAt lines chunk.oldLines.dropLast (endPosition lines chunk.oldLines.dropLast) then
        some (chunk.oldLines.dropLast.length, [])
      else none
    else none
  else (locateChunk chunk left).map fun found => (found.1.found.length, found.1.after)

/-- The last line is empty, and pure additions go before it. -/
def EndsEmpty (lines : List Text) : Prop := lines.getLast? = some []

instance (lines : List Text) : Decidable (EndsEmpty lines) := inferInstanceAs (Decidable (_ = _))

/-- **The condition**, on chunks read from left to right. Of the lines, `free` at the end are behind all that
an earlier chunk replaces or puts in, `left` are to be searched, and `added` tells whether a pure addition has
added lines. -/
def Orderly (lines : List Text) : Nat → List Text → Bool → List UpdateFileChunk → Prop
  | _, _, _, [] => True
  | free, left, added, chunk :: chunks =>
    match passContext chunk.changeContext left with
    | none => True
    | some (_, left) =>
      if chunk.oldLines = [] then
        (EndsEmpty lines → free = 0 → chunk.newLines = []) ∧
          Orderly lines free left (added || decide (chunk.newLines ≠ [])) chunks
      else
        match place lines left chunk with
        | none => True
        | some (0, left) =>
          -- the one old line is empty and not there, so that lines are added where the search stands
          Orderly lines (if withoutFinalEmpty chunk.newLines = [] ∨ left = [] then free else left.length) left added chunks
        | some (found, after) =>
          (chunk.isEndOfFile = true → found ≤ free) ∧
            (EndsEmpty lines → after = [] → found = 1 ∨ added = false) ∧ Orderly lines after.length after added chunks

structure Reading (lines : List Text) (pushed : List Replacement) (free : Nat) (left : List Text) (added : Bool) : Prop where
  suffix : left <:+ lines
  left_le : left.length ≤ free
  free_le : free ≤ lines.length
  replaced : ∀ p ∈ pushed, p.oldLen ≠ 0 → p.startIndex + p.oldLen + free ≤ lines.length
  put : ∀ p ∈ pushed, p.oldLen = 0 → p.newLines ≠ [] → p.startIndex + free ≤ lines.length ∨
    p.startIndex = lines.length ∨ (p.startIndex = insertionIdx lines ∧ added = true)
  last : free = lines.length ∨ ∃ p ∈ pushed, (p.oldLen ≠ 0 ∧ p.startIndex + p.oldLen + free = lines.length) ∨
    (p.oldLen = 0 ∧ p.newLines ≠ [] ∧ p.startIndex + free = lines.length ∧ p.startIndex < lines.length)
  adds : added = true → ∃ p ∈ pushed, p.oldLen = 0 ∧ p.newLines ≠ [] ∧ p.startIndex = insertionIdx lines

theorem reading_start (lines : List Text) : Reading lines [] lines.length lines false where
  suffix := List.suffix_rfl
  left_le := Nat.le_refl _
  free_le := Nat.le_refl _
  replaced := List.forall_mem_nil _
  put := List.forall_mem_nil _
  last := .inl rfl
  adds h := absurd h Bool.false_ne_true

theorem insertionIdx_of_endsEmpty {lines} (h : EndsEmpty lines) : insertionIdx lines + 1 = lines.length := by
  have hne : lines ≠ [] := by
    rintro rfl
    cases h
  have hpos := List.length_pos_of_ne_nil hne
  have hidx : insertionIdx lines = lines.length - 1 := if_pos h
  omega

theorem insertionIdx_of_not {lines} (h : ¬ EndsEmpty lines) : insertionIdx lines = lines.length := if_neg h

theorem safe_iff (p r : Replacement) : Safe p r ↔ (p.oldLen = 0 ∨ r.oldLen = 0 ∨ p.startIndex + p.oldLen ≤ r.startIndex) ∧
    (p.startIndex ≤ r.startIndex → p.oldLen = 0 ∨ r.newLines = [] ∨ p.startIndex + p.oldLen ≤ r.startIndex) ∧
    (r.startIndex < p.startIndex → r.oldLen = 0 ∨ p.newLines = [] ∨ r.startIndex + r.oldLen ≤ p.startIndex) := by
  unfold Safe Apart Clear Replacement.marked
  simp only [List.map_eq_nil_iff]
  refine and_congr_right fun _ => ?_
  split
  next hle => exact ⟨fun h => ⟨fun _ => h, fun hlt => absurd hle (by omega)⟩, fun h => h.1 hle⟩
  next hlt => exact ⟨fun h => ⟨fun hle => absurd hle hlt, fun _ => h⟩, fun h => h.2 (by omega)⟩

variable {r : Replacement} {chunk : UpdateFileChunk} {done : List Text}

namespace Reading

variable {lines : List Text} {pushed : List Replacement} {free : Nat} {left : List Text} {added : Bool}

/-- A pure addition is safe unless it goes before a final empty line that is replaced. -/
theorem safe_addition (h : Reading lines pushed free left added) (newLines : List Text) :
    (∀ p ∈ pushed, Safe p ⟨insertionIdx lines, 0, newLines⟩) ↔ (EndsEmpty lines → free = 0 → newLines = []) := by
  constructor
  · intro hsafe hempty hfree
    have hidx := insertionIdx_of_endsEmpty hempty
    obtain hnone | ⟨p, hp, ⟨hlen, hend⟩ | ⟨-, -, hstart, hlt⟩⟩ := h.last
    · omega
    · obtain ⟨-, hclear, -⟩ := (safe_iff p _).1 (hsafe p hp)
      rcases hclear (by dsimp only; omega) with hzero | hnew | hle
      · exact absurd hzero hlen
      · exact hnew
      · dsimp only at hle
        omega
    · omega
  · intro hcond p hp
    refine (safe_iff p _).2 ⟨.inr (.inl rfl), ?_, fun _ => .inl rfl⟩
    intro hle
    by_cases hlen : p.oldLen = 0
    · exact .inl hlen
    · by_cases hnew : newLines = []
      · exact .inr (.inl hnew)
      · have hend := h.replaced p hp hlen
        refine .inr (.inr ?_)
        by_cases hempty : EndsEmpty lines
        · have hidx := insertionIdx_of_endsEmpty hempty
          have hfree : free ≠ 0 := fun hzero => hnew (hcond hempty hzero)
          dsimp only
          omega
        · show p.startIndex + p.oldLen ≤ insertionIdx lines
          rw [insertionIdx_of_not hempty]
          omega

theorem safe_insertion (h : Reading lines pushed free left added) {start : Nat} (hstart : start + left.length = lines.length)
    (newLines : List Text) : ∀ p ∈ pushed, Safe p ⟨start, 0, newLines⟩ := by
  intro p hp
  refine (safe_iff p _).2 ⟨.inr (.inl rfl), ?_, fun _ => .inl rfl⟩
  intro hle
  by_cases hlen : p.oldLen = 0
  · exact .inl hlen
  · have hend := h.replaced p hp hlen
    have := h.left_le
    refine .inr (.inr ?_)
    dsimp only
    omega

/-- A range is safe if it is behind what is replaced, and takes away no line that is added at the end. -/
theorem safe_range (h : Reading lines pushed free left added) {after : List Text} {eof : Bool}
    (hlen : r.oldLen ≠ 0) (hend : r.startIndex + r.oldLen + after.length = lines.length)
    (hsearch : eof = false → lines.length ≤ r.startIndex + left.length) (heof : eof = true → after = []) :
    (∀ p ∈ pushed, Safe p r) ↔
      (eof = true → r.oldLen ≤ free) ∧ (EndsEmpty lines → after = [] → r.oldLen = 1 ∨ added = false) := by
  have hleft := h.left_le
  constructor
  · intro hsafe
    constructor
    · intro hatEnd
      have hafter : after.length = 0 := by rw [heof hatEnd]; rfl
      by_contra hgt
      obtain hnone | ⟨p, hp, ⟨hplen, hpend⟩ | ⟨hplen, hpnew, hpstart, hplt⟩⟩ := h.last
      · omega
      · obtain ⟨hapart, -, -⟩ := (safe_iff p r).1 (hsafe p hp)
        omega
      · obtain ⟨-, -, hclear⟩ := (safe_iff p r).1 (hsafe p hp)
        rcases hclear (by omega) with hzero | hnew | hle
        · exact hlen hzero
        · exact hpnew hnew
        · omega
    · intro hempty hafter
      have hidx := insertionIdx_of_endsEmpty hempty
      have hafterLen : after.length = 0 := by rw [hafter]; rfl
      by_contra hnot
      obtain ⟨hne, hadded⟩ := not_or.1 hnot
      obtain ⟨p, hp, hplen, hpnew, hpstart⟩ := h.adds (by simpa using hadded)
      obtain ⟨-, -, hclear⟩ := (safe_iff p r).1 (hsafe p hp)
      rcases hclear (by omega) with hzero | hnew | hle
      · exact hlen hzero
      · exact hpnew hnew
      · omega
  · rintro ⟨hwithin, halone⟩ p hp
    have hfrom : lines.length ≤ r.startIndex + free := by
      cases eof with
      | false => have := hsearch rfl; omega
      | true =>
        have := hwithin rfl
        have hafter : after.length = 0 := by rw [heof rfl]; rfl
        omega
    by_cases hplen : p.oldLen = 0
    · refine (safe_iff p r).2 ⟨.inl hplen, fun _ => .inl hplen, ?_⟩
      intro hlt
      by_cases hpnew : p.newLines = []
      · exact .inr (.inl hpnew)
      · refine .inr (.inr ?_)
        rcases h.put p hp hplen hpnew with hput | hput | ⟨hput, hadded⟩
        · omega
        · omega
        · by_cases hempty : EndsEmpty lines
          · have hidx := insertionIdx_of_endsEmpty hempty
            by_cases hafter : after = []
            · rcases halone hempty hafter with hone | hnone
              · omega
              · rw [hadded] at hnone
                cases hnone
            · have := List.length_pos_of_ne_nil hafter
              omega
          · rw [insertionIdx_of_not hempty] at hput
            omega
    · have hpend := h.replaced p hp hplen
      exact (safe_iff p r).2 ⟨.inr (.inr (by omega)), fun _ => .inr (.inr (by omega)), fun hlt => by omega⟩

/-! ### Going on -/

theorem mem_push {P : Replacement → Prop} (h : ∀ p ∈ pushed, P p) (hr : P r) :
    ∀ p ∈ pushed ++ [r], P p := by
  intro p hp
  rcases List.mem_append.1 hp with hp | hp
  · exact h p hp
  · rw [List.mem_singleton.1 hp]
    exact hr

theorem exists_push {P : Replacement → Prop} (r : Replacement) (h : ∃ p ∈ pushed, P p) :
    ∃ p ∈ pushed ++ [r], P p := by
  obtain ⟨p, hp, hP⟩ := h
  exact ⟨p, List.mem_append_left _ hp, hP⟩

/-- Behind the context there are fewer lines left. -/
theorem pass (h : Reading lines pushed free left added) {rest} (hrest : rest <:+ left) :
    Reading lines pushed free rest added where
  suffix := hrest.trans h.suffix
  left_le := hrest.length_le.trans h.left_le
  free_le := h.free_le
  replaced := h.replaced
  put := h.put
  last := h.last
  adds := h.adds

theorem addition (h : Reading lines pushed free left added) (newLines : List Text) :
    Reading lines (pushed ++ [⟨insertionIdx lines, 0, newLines⟩]) free left (added || decide (newLines ≠ [])) where
  suffix := h.suffix
  left_le := h.left_le
  free_le := h.free_le
  replaced := mem_push h.replaced fun hne => absurd rfl hne
  put := by
    refine mem_push ?_ ?_
    · intro p hp hlen hnew
      rcases h.put p hp hlen hnew with hput | hput | ⟨hput, hadded⟩
      · exact .inl hput
      · exact .inr (.inl hput)
      · exact .inr (.inr ⟨hput, by rw [hadded]; rfl⟩)
    · intro _ hnew
      exact .inr (.inr ⟨rfl, by simpa using .inr hnew⟩)
  last := h.last.imp_right (exists_push _)
  adds := by
    intro hadded
    rcases Bool.or_eq_true_iff.1 hadded with hadded | hnew
    · exact exists_push _ (h.adds hadded)
    · exact ⟨_, List.mem_append_right _ List.mem_cons_self, rfl, of_decide_eq_true hnew, rfl⟩

theorem insertion (h : Reading lines pushed free left added) {start : Nat} (hstart : start + left.length = lines.length)
    (newLines : List Text) :
    Reading lines (pushed ++ [⟨start, 0, newLines⟩]) (if newLines = [] ∨ left = [] then free else left.length) left added := by
  have hleft := h.left_le
  have hfree := h.free_le
  split
  next hnone =>
    exact {
      suffix := h.suffix
      left_le := hleft
      free_le := hfree
      replaced := mem_push h.replaced fun hne => absurd rfl hne
      put := by
        refine mem_push h.put ?_
        intro _ hnew
        rcases hnone with hnil | hnil
        · exact absurd hnil hnew
        · rw [hnil] at hstart
          exact .inr (.inl hstart)
      last := h.last.imp_right (exists_push _)
      adds := fun hadded => exists_push _ (h.adds hadded) }
  next hsome =>
    obtain ⟨hnew, hne⟩ := not_or.1 hsome
    have hpos := List.length_pos_of_ne_nil hne
    exact {
      suffix := h.suffix
      left_le := Nat.le_refl _
      free_le := hleft.trans hfree
      replaced := by
        refine mem_push ?_ fun hzero => absurd rfl hzero
        intro p hp hlen
        have := h.replaced p hp hlen
        omega
      put := by
        refine mem_push ?_ fun _ _ => .inl (Nat.le_of_eq hstart)
        intro p hp hlen hpnew
        exact (h.put p hp hlen hpnew).imp_left fun hput => by omega
      last := .inr ⟨_, List.mem_append_right _ List.mem_cons_self, .inr ⟨rfl, hnew, hstart, by dsimp only; omega⟩⟩
      adds := fun hadded => exists_push _ (h.adds hadded) }

theorem range (h : Reading lines pushed free left added) {after} (hlen : r.oldLen ≠ 0)
    (hend : r.startIndex + r.oldLen + after.length = lines.length) (hafter : after <:+ left) :
    Reading lines (pushed ++ [r]) after.length after added where
  suffix := hafter.trans h.suffix
  left_le := Nat.le_refl _
  free_le := hafter.length_le.trans (h.left_le.trans h.free_le)
  replaced := by
    refine mem_push ?_ fun _ => Nat.le_of_eq hend
    intro p hp hplen
    have hpend := h.replaced p hp hplen
    have hle := hafter.length_le
    have := h.left_le
    omega
  put := by
    refine mem_push ?_ fun hzero => absurd hzero hlen
    intro p hp hplen hpnew
    have hle := hafter.length_le
    have := h.left_le
    exact (h.put p hp hplen hpnew).imp_left fun hput => by omega
  last := .inr ⟨r, List.mem_append_right _ List.mem_cons_self, .inl ⟨hlen, hend⟩⟩
  adds hadded := exists_push r (h.adds hadded)

end Reading

/-! ## The code and the reading -/

/-- What a chunk with old lines pushes, found behind `idx` lines, and what the reading makes of it. -/
structure Placed (lines left : List Text) (chunk : UpdateFileChunk) (idx : Nat) (r : Replacement) (next : Nat) (found : Nat)
    (after : List Text) : Prop where
  place_eq : place lines left chunk = some (found, after)
  oldLen_eq : r.oldLen = found
  next_eq : next + after.length = lines.length
  suffix : after <:+ left
  insertion : found = 0 → r = ⟨idx, 0, withoutFinalEmpty chunk.newLines⟩ ∧ after = left
  range : found ≠ 0 → r.startIndex + r.oldLen + after.length = lines.length
  search : chunk.isEndOfFile = false → idx ≤ r.startIndex
  atEnd : found ≠ 0 → chunk.isEndOfFile = true → after = []

/-- Nothing is found for an insertion only where one empty line is looked for a second time. -/
theorem locateChunk_length_eq_zero {left new located}
    (h : locateChunk chunk left = some (located, new)) (hne : chunk.oldLines ≠ []) (hzero : located.found.length = 0) :
    located = ⟨[], [], left⟩ ∧ new = withoutFinalEmpty chunk.newLines := by
  have hpos := List.length_pos_of_ne_nil hne
  unfold locateChunk at h
  split at h
  next hlocated =>
    cases h
    have := (locate_eq_some hlocated).2
    omega
  next =>
    split at h
    · obtain ⟨other, hlocated, heq⟩ := Option.map_eq_some_iff.1 h
      cases heq
      have hlength := (locate_eq_some hlocated).2
      have hnil : chunk.oldLines.dropLast = [] := List.length_eq_zero_iff.1 (by omega)
      rw [hnil, locate_nil, Option.some_inj] at hlocated
      exact ⟨hlocated.symm, rfl⟩
    · cases h

theorem placed_search {left} (hne : chunk.oldLines ≠ [])
    (heof : chunk.isEndOfFile = false) (h : seekOldLines (done ++ left) done.length chunk = some r) :
    ∃ found after, Placed (done ++ left) left chunk done.length r (r.startIndex + r.oldLen) found after := by
  rw [seekOldLines_eq heof] at h
  obtain ⟨⟨located, new⟩, hlocated, rfl⟩ := Option.map_eq_some_iff.1 h
  have hleft := locateChunk_eq_some hlocated
  have hlength : (done ++ located.before).length + located.found.length + located.after.length = (done ++ left).length := by
    rw [hleft]
    simp only [List.length_append]
    omega
  refine ⟨located.found.length, located.after, ?_, rfl, hlength, ?_, ?_, fun _ => hlength, ?_, ?_⟩
  · rw [place, heof, if_neg Bool.false_ne_true, hlocated]
    rfl
  · rw [hleft]
    exact List.suffix_append ..
  · intro hzero
    obtain ⟨hlocatedEq, hnew⟩ := locateChunk_length_eq_zero hlocated hne hzero
    rw [hlocatedEq, hnew]
    exact ⟨by rw [List.append_nil]; rfl, rfl⟩
  · intro _
    rw [List.length_append]
    exact Nat.le_add_right ..
  · intro _ hatEnd
    rw [heof] at hatEnd
    cases hatEnd

theorem placed_atEnd {left} (hne : chunk.oldLines ≠ [])
    (heof : chunk.isEndOfFile = true) (h : seekOldLines (done ++ left) done.length chunk = some r) :
    ∃ found after, Placed (done ++ left) left chunk done.length r (r.startIndex + r.oldLen) found after := by
  -- a pattern that ends the lines begins as many lines before their end
  have hends : ∀ pattern : List Text, MatchesAt (done ++ left) pattern (endPosition (done ++ left) pattern) →
      endPosition (done ++ left) pattern + pattern.length = (done ++ left).length := by
    intro pattern hmatches
    have hle := hmatches.1
    unfold endPosition at hle ⊢
    omega
  have hnoSearch : chunk.isEndOfFile = false → done.length ≤ r.startIndex := by
    intro hsearch
    rw [heof] at hsearch
    cases hsearch
  rw [seekOldLines, heof, seekSequence_eof _ hne] at h
  by_cases hmatches : MatchesAt (done ++ left) chunk.oldLines (endPosition (done ++ left) chunk.oldLines)
  · rw [if_pos hmatches] at h
    cases h
    exact ⟨chunk.oldLines.length, [], by rw [place, if_pos heof, if_pos hmatches], rfl, hends _ hmatches, List.nil_suffix,
      fun hzero => absurd (List.length_eq_zero_iff.1 hzero) hne, fun _ => hends _ hmatches, hnoSearch, fun _ _ => rfl⟩
  · rw [if_neg hmatches] at h
    dsimp only at h
    split at h
    next hlast =>
      by_cases hnil : chunk.oldLines.dropLast = []
      · rw [hnil, seekSequence, if_pos rfl] at h
        cases h
        exact ⟨0, left, by rw [place, if_pos heof, if_neg hmatches, if_pos hlast, if_pos hnil], rfl,
          List.length_append.symm, List.suffix_rfl, fun _ => ⟨rfl, rfl⟩, fun hzero => absurd rfl hzero, hnoSearch,
          fun hzero => absurd rfl hzero⟩
      · rw [seekSequence_eof _ hnil] at h
        by_cases hretry : MatchesAt (done ++ left) chunk.oldLines.dropLast (endPosition (done ++ left) chunk.oldLines.dropLast)
        · rw [if_pos hretry] at h
          cases h
          exact ⟨chunk.oldLines.dropLast.length, [],
            by rw [place, if_pos heof, if_neg hmatches, if_pos hlast, if_neg hnil, if_pos hretry], rfl, hends _ hretry,
            List.nil_suffix, fun hzero => absurd (List.length_eq_zero_iff.1 hzero) hnil, fun _ => hends _ hretry, hnoSearch,
            fun _ _ => rfl⟩
        · rw [if_neg hretry] at h
          cases h
    next => cases h

theorem seekContext_passes {left} {path : Text} {changeContext} {idx : Nat}
    (h : seekContext (done ++ left) path done.length changeContext = .ok idx) :
    ∃ passed rest, passContext changeContext left = some (passed, rest) ∧ left = passed ++ rest ∧
      idx = (done ++ passed).length := by
  have hcontext := seekContext_eq path changeContext done left
  cases hpassed : passContext changeContext left with
  | none =>
    rw [hpassed] at hcontext
    obtain ⟨error, herror⟩ := hcontext
    rw [herror] at h
    cases h
  | some pair =>
    obtain ⟨passed, rest⟩ := pair
    rw [hpassed] at hcontext
    rw [hcontext] at h
    cases h
    exact ⟨passed, rest, rfl, passContext_eq_some hpassed, rfl⟩

/-- **What is pushed later is safe** iff the rest of the reading is orderly. -/
theorem safe_iff_orderly {lines : List Text} {path : Text} {chunks : List UpdateFileChunk} {pushed rest : List Replacement}
    {free : Nat} {left : List Text} {added : Bool} {lineIndex : Nat} (hread : Reading lines pushed free left added)
    (hindex : lineIndex + left.length = lines.length) (h : collectReplacements lines path lineIndex chunks = .ok rest) :
    ((∀ p ∈ pushed, ∀ r ∈ rest, Safe p r) ∧ rest.Pairwise Safe) ↔ Orderly lines free left added chunks := by
  induction chunks generalizing pushed rest free left added lineIndex with
  | nil =>
    cases h
    exact iff_of_true ⟨fun _ _ => List.forall_mem_nil _, .nil⟩ trivial
  | cons chunk chunks ih =>
    obtain ⟨idx, r, next, others, hidx, hchunk, hothers, rfl⟩ := collectReplacements_cons h
    obtain ⟨done, rfl⟩ := hread.suffix
    obtain rfl : lineIndex = done.length := by
      rw [List.length_append] at hindex
      omega
    obtain ⟨passed, remaining, hpassed, rfl, rfl⟩ := seekContext_passes hidx
    have hread := hread.pass (List.suffix_append passed remaining)
    have hsplit : ((∀ p ∈ pushed, ∀ r' ∈ r :: others, Safe p r') ∧ (r :: others).Pairwise Safe) ↔
        (∀ p ∈ pushed, Safe p r) ∧ (∀ p ∈ pushed ++ [r], ∀ r' ∈ others, Safe p r') ∧ others.Pairwise Safe := by
      simp only [List.forall_mem_cons, List.pairwise_cons, List.forall_mem_append, forall_and]
      tauto
    rw [hsplit, Orderly, hpassed]
    rw [← List.append_assoc] at hread hchunk hothers ih ⊢
    have hremaining : (done ++ passed).length + remaining.length = (done ++ passed ++ remaining).length :=
      List.length_append.symm
    dsimp only
    by_cases hold : chunk.oldLines = []
    · rw [chunkReplacement, if_pos hold, Option.some_inj] at hchunk
      cases hchunk
      rw [if_pos hold]
      exact and_congr (hread.safe_addition chunk.newLines) (ih (hread.addition chunk.newLines) hremaining hothers)
    · rw [chunkReplacement, if_neg hold] at hchunk
      obtain ⟨found, hfound, heq⟩ := Option.map_eq_some_iff.1 hchunk
      cases heq
      obtain ⟨len, after, hplaced⟩ : ∃ len after,
          Placed (done ++ passed ++ remaining) remaining chunk (done ++ passed).length r (r.startIndex + r.oldLen) len after := by
        cases heof : chunk.isEndOfFile with
        | false => exact placed_search hold heof hfound
        | true => exact placed_atEnd hold heof hfound
      rw [if_neg hold, hplaced.place_eq]
      cases len with
      | zero =>
        obtain ⟨hr, rfl⟩ := hplaced.insertion rfl
        subst hr
        rw [and_iff_right (hread.safe_insertion hremaining _)]
        exact ih (hread.insertion hremaining _) hplaced.next_eq hothers
      | succ len =>
        have hlen : r.oldLen ≠ 0 := by
          rw [hplaced.oldLen_eq]
          exact Nat.succ_ne_zero len
        have hend := hplaced.range (Nat.succ_ne_zero len)
        have hsafe := hread.safe_range hlen hend (fun hsearch => hremaining ▸ Nat.add_le_add_right (hplaced.search hsearch) _)
          (hplaced.atEnd (Nat.succ_ne_zero len))
        rw [hplaced.oldLen_eq] at hsafe
        exact (and_congr hsafe (ih (hread.range hlen hend hplaced.suffix) hplaced.next_eq hothers)).trans and_assoc

/-- **Replacements keep apart** iff the chunks read from left to right are orderly. -/
theorem replacesApart_iff {lines : List Text} {path : Text} {chunks : List UpdateFileChunk} {sorted : List Replacement}
    (h : computeReplacements lines path chunks = .ok sorted) :
    ReplacesApart lines path chunks ↔ Orderly lines lines.length lines false chunks := by
  obtain ⟨collected, hcollected, rfl⟩ := computeReplacements_eq_ok h
  have hsafe := safe_iff_orderly (reading_start lines) (Nat.zero_add _) hcollected
  rw [← hsafe, and_iff_right (List.forall_mem_nil _), ← keepsApart_iff_safe
    (collectReplacements_in_bounds hcollected (Nat.zero_le _))]
  constructor
  · intro hall
    exact hall collected _ hcollected h
  · intro hkeeps collected' sorted' hcollected' hsorted'
    rw [hcollected] at hcollected'
    rw [h] at hsorted'
    cases hcollected'
    cases hsorted'
    exact hkeeps

/-- A chunk and then an addition at the end. -/
def swapAndAdd : List UpdateFileChunk :=
  [{ changeContext := none, oldLines := [['a']], newLines := [['c']], isEndOfFile := false },
    { changeContext := none, oldLines := [], newLines := [['d']], isEndOfFile := false }]

theorem replacesApart_iff_swapAndAdd : ReplacesApart [['a'], ['b']] [] swapAndAdd ↔
    Orderly [['a'], ['b']] ([['a'], ['b']] : List Text).length [['a'], ['b']] false swapAndAdd :=
  have hcomputed : computeReplacements [['a'], ['b']] [] swapAndAdd = .ok [⟨0, 1, [['c']]⟩, ⟨2, 0, [['d']]⟩] := by rfl
  replacesApart_iff hcomputed

/-- The last line of the file for `c`, and then for `d`. -/
def lastTwice : List UpdateFileChunk :=
  [{ changeContext := none, oldLines := [['b']], newLines := [['c']], isEndOfFile := true },
    { changeContext := none, oldLines := [['b']], newLines := [['d']], isEndOfFile := true }]

/-- Both ranges are the last line, and what the second chunk puts in is taken away with the first one's. -/
theorem not_replacesApart_lastTwice :
    computeReplacements [['a'], ['b']] [] lastTwice = .ok [⟨1, 1, [['c']]⟩, ⟨1, 1, [['d']]⟩] ∧
      applyReplacements [['a'], ['b']] [⟨1, 1, [['c']]⟩, ⟨1, 1, [['d']]⟩] = [['a'], ['c']] ∧
      ¬ ReplacesApart [['a'], ['b']] [] lastTwice := by
  refine ⟨by rfl, by rfl, ?_⟩
  intro h
  have hkeeps := h [⟨1, 1, [['c']]⟩, ⟨1, 1, [['d']]⟩] [⟨1, 1, [['c']]⟩, ⟨1, 1, [['d']]⟩] (by rfl) (by rfl)
  exact absurd hkeeps.disjoint (by decide)

end Codex.Patch
