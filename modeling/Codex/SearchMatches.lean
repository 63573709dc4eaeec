/-
What a match of the lower-cased text comes back as. `LiteralMatcher` finds the
characters whose lower case the match touches, and no others (`exists_originalRange`),
and the snippet around them is cut without cutting a character, with a range that
selects them in UTF-16 (`exists_occurrence`).
-/
import Codex.ThreadSearch

namespace Codex.Search

open WeightedOffsets

/-! ## Bytes -/

variable (before after : Text)

theorem slice_append (matched after : Text) :
    slice (before ++ matched ++ after) (len before) (len (before ++ matched)) = some matched :=
  WeightedOffsets.slice_append Char.utf8Size_pos before matched after

theorem slice_take : slice (before ++ after) 0 (len before) = some before := by
  have h := slice_append [] before after
  rwa [List.nil_append] at h

theorem slice_drop : slice (before ++ after) (len before) (len (before ++ after)) = some after := by
  have h := slice_append before after []
  rwa [List.append_nil] at h

variable (text : Text)

theorem len_append (more : Text) : len (text ++ more) = len text + len more := weight_append text more

theorem len_cons (c : Char) (text : Text) : len (c :: text) = c.utf8Size + len text := weight_cons c text

theorem len_pos {text : Text} (h : text ≠ []) : 0 < len text := by
  have hle : text.length ≤ len text := length_le_weight Char.utf8Size_pos text
  have := List.length_pos_iff.2 h
  omega

theorem len_take_le_iff {text : Text} {i j : Nat} (hi : i ≤ text.length) :
    len (text.take i) ≤ len (text.take j) ↔ i ≤ j := weight_take_le_iff Char.utf8Size_pos hi

/-! ## Lower case -/

section
variable (tables : CaseTables)

/-- What a character's lower case takes up. -/
def lowercaseSize (c : Char) : Nat := len (tables.charToLowercase c)

/-- How many characters of the lower case come from the first `i` characters. -/
def lowercaseOffset (text : Text) (i : Nat) : Nat := ((lowercasePieces tables [] text).take i).flatten.length

variable {tables}

theorem lowercaseSize_pos (c : Char) : 0 < lowercaseSize tables c := len_pos (tables.charToLowercase_ne_nil c)

theorem length_lowercasePieces : (lowercasePieces tables before text).length = text.length := by
  induction text generalizing before with
  | nil => rfl
  | cons c text ih => rw [lowercasePieces, List.length_cons, ih, List.length_cons]

/-- Both letters of a sigma take up the same, so that the contexts do not matter. -/
theorem len_flatten_lowercasePieces (before text : Text) (i : Nat) :
    len ((lowercasePieces tables before text).take i).flatten = weight (lowercaseSize tables) (text.take i) := by
  induction text generalizing before i with
  | nil => simp [lowercasePieces, len]
  | cons c text ih =>
    cases i with
    | zero => rfl
    | succ i =>
      have hpiece : len (if c = 'Σ' then [mapUppercaseSigma tables before text] else tables.charToLowercase c) =
          lowercaseSize tables c := by
        split
        next h =>
          rw [lowercaseSize, h, tables.charToLowercase_sigma, mapUppercaseSigma]
          split <;> rfl
        next => rfl
      rw [lowercasePieces, List.take_succ_cons, List.flatten_cons, len_append, hpiece, ih, List.take_succ_cons, weight_cons]

theorem len_toLowercase : len (toLowercase tables text) = weight (lowercaseSize tables) text := by
  have h := @len_flatten_lowercasePieces tables [] text text.length
  rwa [List.take_of_length_le (length_lowercasePieces [] text).le, List.take_of_length_le (Nat.le_refl _)] at h

theorem lowercaseOffset_le (text : Text) (i : Nat) : lowercaseOffset tables text i ≤ (toLowercase tables text).length := by
  have h := congrArg (fun pieces => (List.flatten pieces).length) (List.take_append_drop i (lowercasePieces tables [] text))
  simp only [List.flatten_append, List.length_append] at h
  rw [toLowercase, lowercaseOffset]
  omega

/-- The lower case of the first characters is a beginning of the lower case. -/
theorem len_take_lowercaseOffset (i : Nat) :
    len ((toLowercase tables text).take (lowercaseOffset tables text i)) = weight (lowercaseSize tables) (text.take i) := by
  have h := congrArg List.flatten (List.take_append_drop i (lowercasePieces tables [] text))
  rw [List.flatten_append] at h
  rw [toLowercase, ← h, lowercaseOffset, List.take_left, len_flatten_lowercasePieces]

/-! ## The matcher -/

theorem contains_iff {range : ByteRange} {p : Nat} : range.contains p = true ↔ range.start ≤ p ∧ p < range.end := by
  rw [ByteRange.contains, Bool.and_eq_true, decide_eq_true_eq, decide_eq_true_eq]

theorem find_spansFrom {before after : Text} {c : Char} {lowercaseStart originalStart p : Nat}
    (hle : lowercaseStart + weight (lowercaseSize tables) before ≤ p)
    (hlt : p < lowercaseStart + weight (lowercaseSize tables) before + lowercaseSize tables c) :
    ((spansFrom tables lowercaseStart originalStart (before ++ c :: after)).find? fun span => span.1.contains p).map Prod.snd =
      some ⟨originalStart + len before, originalStart + len (before ++ [c])⟩ := by
  induction before generalizing lowercaseStart originalStart with
  | nil =>
    rw [List.nil_append, spansFrom, List.find?_cons_of_pos]
    · rfl
    · exact contains_iff.2 ⟨hle, hlt⟩
  | cons d before ih =>
    rw [weight_cons] at hle hlt
    rw [List.cons_append, spansFrom, List.find?_cons_of_neg]
    · have hrest := @ih (lowercaseStart + lowercaseSize tables d) (originalStart + d.utf8Size) (by omega) (by omega)
      rw [List.cons_append, len_cons, len_cons, ← Nat.add_assoc, ← Nat.add_assoc]
      exact hrest
    · intro h
      have hin := (contains_iff.1 h).2
      change p < lowercaseStart + lowercaseSize tables d at hin
      omega

/-- The characters from `i` to `j` are those whose lower case the match touches. -/
structure Covers (tables : CaseTables) (text : Text) (start length i j : Nat) : Prop where
  first : lowercaseOffset tables text i ≤ start ∧ start < lowercaseOffset tables text (i + 1)
  last : lowercaseOffset tables text j < start + length ∧ start + length ≤ lowercaseOffset tables text (j + 1)
  ordered : i ≤ j
  inText : j < text.length

/-- The character that a byte of the lower case comes from. -/
theorem exists_span {text : Text} {p : Nat} (h : p < len (toLowercase tables text)) :
    ∃ i < text.length, weight (lowercaseSize tables) (text.take i) ≤ p ∧ p < weight (lowercaseSize tables) (text.take (i + 1)) ∧
      ((spansFrom tables 0 0 text).find? fun span => span.1.contains p).map Prod.snd =
        some ⟨len (text.take i), len (text.take (i + 1))⟩ := by
  rw [len_toLowercase] at h
  obtain ⟨before, c, after, rfl, hle, hlt⟩ := exists_within h
  have htake : (before ++ c :: after).take before.length = before := List.take_left
  have htake' : (before ++ c :: after).take (before.length + 1) = before ++ [c] := by
    rw [List.take_append]
    simp
  have hfind := @find_spansFrom tables before after c 0 0 p (by rwa [Nat.zero_add]) (by rwa [Nat.zero_add])
  rw [Nat.zero_add, Nat.zero_add] at hfind
  refine ⟨before.length, by simp, ?_, ?_, ?_⟩
  · rwa [htake]
  · rw [htake', weight_append, weight_cons, weight_nil]
    exact hlt
  · rw [htake, htake']
    exact hfind

/-- **A match comes from whole characters**, the fewest that have it in their lower case. -/
theorem exists_originalRange {needle text : Text} {m : Nat} (hne : needle ≠ [])
    (h : needle <+: (toLowercase tables text).drop m) :
    ∃ i j, Covers tables text m needle.length i j ∧
      (LiteralMatcher.mk needle).originalRange (spansFrom tables 0 0 text) (len ((toLowercase tables text).take m)) =
        some ⟨len (text.take i), len (text.take (j + 1))⟩ := by
  have hpos := List.length_pos_iff.2 hne
  have hlength : m + needle.length ≤ (toLowercase tables text).length := by
    have := h.length_le
    rw [List.length_drop] at this
    omega
  -- where the match ends
  have hstop : len ((toLowercase tables text).take m) + len needle =
      len ((toLowercase tables text).take (m + needle.length)) := by
    rw [List.take_add, len_append, ← List.prefix_iff_eq_take.1 h]
  have hbytes : 0 < len needle := len_pos hne
  have hbound : len ((toLowercase tables text).take (m + needle.length)) ≤ len (toLowercase tables text) := by
    have := (len_take_le_iff (j := (toLowercase tables text).length) hlength).2 hlength
    rwa [List.take_of_length_le (Nat.le_refl _)] at this
  obtain ⟨i, hi, hile, hilt, hfirst⟩ :=
    @exists_span tables text (len ((toLowercase tables text).take m)) (by omega)
  obtain ⟨j, hj, hjle, hjlt, hlast⟩ :=
    @exists_span tables text (len ((toLowercase tables text).take (m + needle.length)) - 1) (by omega)
  refine ⟨i, j, ⟨⟨?_, ?_⟩, ⟨?_, ?_⟩, ?_, hj⟩, ?_⟩
  · rw [← len_take_lowercaseOffset] at hile
    exact (len_take_le_iff (lowercaseOffset_le text i)).1 hile
  · rw [← len_take_lowercaseOffset] at hilt
    by_contra hle
    have := (len_take_le_iff (j := m) (@lowercaseOffset_le tables text (i + 1))).2 (by omega)
    omega
  · rw [← len_take_lowercaseOffset] at hjle
    by_contra hle
    have := (len_take_le_iff (j := lowercaseOffset tables text j) hlength).2 (by omega)
    omega
  · rw [← len_take_lowercaseOffset] at hjlt
    exact (len_take_le_iff hlength).1 (by omega)
  · by_contra hlt
    have := (@weight_take_le_iff _ _ (@lowercaseSize_pos tables) text (j + 1) i (by omega)).2 (by omega)
    omega
  · rw [Option.map_eq_some_iff] at hfirst hlast
    obtain ⟨first, hfind, hrange⟩ := hfirst
    obtain ⟨last, hfind', hrange'⟩ := hlast
    rw [LiteralMatcher.originalRange, hfind, Option.bind_eq_bind, Option.bind_some, hstop, hfind', Option.bind_some,
      hrange, hrange']
    rfl

end

/-! ## Snippets -/

theorem charStartBefore_append (n : Nat) :
    charStartBefore (before ++ after) (len before) n = some (len (before.take (before.length - (n + 1)))) := by
  rw [charStartBefore, slice_take, Option.map_some, charIndices]
  congr 1
  by_cases h : n < before.length
  · rw [List.getElem?_reverse (by rwa [length_indexed]), length_indexed, getElem?_indexed,
      List.getElem?_eq_getElem (show before.length - 1 - n < before.length by omega)]
    simp only [Option.map_some, Option.getD_some, Nat.zero_add, len]
    congr 2
    omega
  · rw [List.getElem?_eq_none (by rw [List.length_reverse, length_indexed]; omega)]
    rw [show before.length - (n + 1) = 0 by omega]
    rfl

theorem charEndAfter_append (n : Nat) :
    charEndAfter (before ++ after) (len before) n = some (len (before ++ after.take n)) := by
  rw [charEndAfter, slice_drop, Option.map_some, charIndices, getElem?_indexed]
  congr 1
  by_cases h : n < after.length
  · rw [List.getElem?_eq_getElem h, Option.map_some, Option.map_some, Option.getD_some, Nat.zero_add]
    exact (len_append before _).symm
  · rw [List.getElem?_eq_none (by omega), List.take_of_length_le (by omega)]
    rfl

theorem encodeUtf16_append (more : Text) : encodeUtf16 (text ++ more) = encodeUtf16 text ++ encodeUtf16 more :=
  List.flatMap_append

theorem length_encodeUtf16_le : (encodeUtf16 text).length ≤ 2 * text.length := by
  induction text with
  | nil => exact Nat.le_refl _
  | cons c text ih =>
    have hchar : (encodeUtf16Char c).length ≤ 2 := by
      rw [encodeUtf16Char]
      split
      · exact Nat.le_succ 1
      · exact Nat.le_refl 2
    rw [encodeUtf16, List.flatMap_cons, List.length_append, ← encodeUtf16, List.length_cons]
    omega

/-- The range of an occurrence selects a text in the UTF-16 of its snippet. -/
def Selects (occurrence : StoredThreadOccurrence) (matched : Text) : Prop :=
  ((encodeUtf16 occurrence.snippet).take occurrence.snippetMatchRange.end).drop occurrence.snippetMatchRange.start =
    encodeUtf16 matched

theorem take_drop_middle {α : Type} (before matched after : List α) :
    ((before ++ matched ++ after).take (before.length + matched.length)).drop before.length = matched := by
  rw [← List.length_append, List.take_left, List.drop_left]

/-- A range that counts what is before the match selects the match; none of the sums reaches the bound of a `u32`. -/
theorem selects_of_counts {occurrence} {lead near matched : Text}
    (hsnippet : ∃ rest, occurrence.snippet = lead ++ near ++ matched ++ rest)
    (hstart : occurrence.snippetMatchRange.start = ((encodeUtf16 lead).length + utf16Len near) % 2 ^ 32)
    (hend : occurrence.snippetMatchRange.end = min (occurrence.snippetMatchRange.start + utf16Len matched) u32Max)
    (hlead : (encodeUtf16 lead).length ≤ 4) (hnear : near.length ≤ snippetContextBeforeChars + 1)
    (hmatched : (encodeUtf16 matched).length < 2 ^ 31) : Selects occurrence matched := by
  have hunits := length_encodeUtf16_le near
  rw [snippetContextBeforeChars] at hnear
  obtain ⟨rest, hsnippet⟩ := hsnippet
  have hstart' : occurrence.snippetMatchRange.start = (encodeUtf16 (lead ++ near)).length := by
    rw [hstart, utf16Len, u32Max, encodeUtf16_append, List.length_append, Nat.min_eq_left (by omega), Nat.mod_eq_of_lt (by omega)]
  have hend' : occurrence.snippetMatchRange.end = (encodeUtf16 (lead ++ near)).length + (encodeUtf16 matched).length := by
    rw [hend, hstart', utf16Len, u32Max, encodeUtf16_append, List.length_append]
    omega
  rw [Selects, hend', hstart', hsnippet, encodeUtf16_append _ rest, encodeUtf16_append _ matched]
  exact take_drop_middle ..

/-- **A snippet is cut between characters**, and its range selects the match. -/
theorem exists_occurrence (turnId itemId turnCursor : String) {before matched after : Text}
    (h : (encodeUtf16 (before ++ matched ++ after)).length < 2 ^ 31) :
    ∃ occurrence, occurrenceInItem turnId itemId (before ++ matched ++ after) ⟨len before, len (before ++ matched)⟩ turnCursor =
        some occurrence ∧
      occurrence.turnId = turnId ∧ occurrence.itemId = itemId ∧ occurrence.turnCursor = turnCursor ∧
      Selects occurrence matched := by
  obtain ⟨far, near, hbefore, hfar, hnear⟩ : ∃ far near, before = far ++ near ∧
      far = before.take (before.length - (snippetContextBeforeChars + 1)) ∧ near.length ≤ snippetContextBeforeChars + 1 :=
    ⟨_, _, (List.take_append_drop _ before).symm, rfl, by rw [List.length_drop]; omega⟩
  obtain ⟨close, rest, hafter, hclose⟩ : ∃ close rest, after = close ++ rest ∧ close = after.take snippetContextAfterChars :=
    ⟨_, _, (List.take_append_drop _ after).symm, rfl⟩
  -- the ends of the snippet
  have hstart : charStartBefore (before ++ matched ++ after) (len before) snippetContextBeforeChars = some (len far) := by
    rw [List.append_assoc, charStartBefore_append, ← hfar]
  have hend : charEndAfter (before ++ matched ++ after) (len (before ++ matched)) snippetContextAfterChars =
      some (len (far ++ (near ++ matched ++ close))) := by
    rw [charEndAfter_append, ← hclose, hbefore]
    simp only [List.append_assoc]
  -- and its slices
  have hcontext : slice (before ++ matched ++ after) (len far) (len (far ++ (near ++ matched ++ close))) =
      some (near ++ matched ++ close) := by
    have := slice_append far (near ++ matched ++ close) rest
    rwa [show far ++ (near ++ matched ++ close) ++ rest = before ++ matched ++ after by
      rw [hbefore, hafter]; simp only [List.append_assoc]] at this
  have hnearSlice : slice (before ++ matched ++ after) (len far) (len before) = some near := by
    have := slice_append far near (matched ++ after)
    rwa [← hbefore, ← List.append_assoc] at this
  have hmatched : (encodeUtf16 matched).length < 2 ^ 31 := by
    rw [encodeUtf16_append, encodeUtf16_append, List.length_append, List.length_append] at h
    omega
  obtain ⟨lead, hlead, hunits, hfour⟩ : ∃ lead, (if 0 < len far then "... ".toList else []) = lead ∧
      (if 0 < len far then 4 else 0) = (encodeUtf16 lead).length ∧ (encodeUtf16 lead).length ≤ 4 := by
    refine ⟨_, rfl, ?_⟩
    split
    · exact ⟨rfl, Nat.le_refl _⟩
    · exact ⟨rfl, Nat.zero_le _⟩
  rw [occurrenceInItem, hstart, Option.bind_eq_bind, Option.bind_some, hend, Option.bind_some, hcontext]
  simp only [hnearSlice, slice_append, Option.pure_def]
  refine ⟨_, rfl, rfl, rfl, rfl, selects_of_counts ?_ (congrArg (fun n => (n + utf16Len near) % 2 ^ 32) hunits)
    rfl hfour hnear hmatched⟩
  refine ⟨close ++ if len (far ++ (near ++ matched ++ close)) < len (before ++ matched ++ after) then " ...".toList else [], ?_⟩
  simp only [← hlead, List.append_assoc]

end Codex.Search
