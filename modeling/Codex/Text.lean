/-
Text as the Rust sources handle it: a string is its list of `char`s, and the
`str` methods the modelled code calls are the functions below. `lines` and
`trim` follow the standard library's documentation (`\n` and `\r\n` end a
line, a bare `\r` does not; whitespace is the Unicode `White_Space`
property).
-/
import Mathlib.Algebra.Order.Ring.Int
import Mathlib.Data.List.DropRight
import Mathlib.Tactic.Common

namespace Codex

/-- A Rust `String` or `&str`, by its `chars()`. -/
abbrev Text := List Char

instance : LawfulBEq Text := inferInstance

namespace Text

/-- `char::is_whitespace`: the code points with the `White_Space` property. -/
def isWhitespace (c : Char) : Bool :=
  let n := c.toNat
  (9 ≤ n && n ≤ 13) || n == 0x20 || n == 0x85 || n == 0xA0 || n == 0x1680 ||
    (0x2000 ≤ n && n ≤ 0x200A) || n == 0x2028 || n == 0x2029 || n == 0x202F || n == 0x205F ||
    n == 0x3000

/-- `str::trim_start` -/
def trimStart (s : Text) : Text := s.dropWhile isWhitespace

/-- `str::trim_end` -/
def trimEnd (s : Text) : Text := s.rdropWhile isWhitespace

/-- `str::trim` -/
def trim (s : Text) : Text := trimEnd (trimStart s)

/-- `str::strip_prefix` -/
def stripStart (pre s : Text) : Option Text :=
  if pre.isPrefixOf s then some (s.drop pre.length) else none

/-- `str::starts_with` -/
def startsWith (s pre : Text) : Bool := pre.isPrefixOf s

/-- `str::ends_with` -/
def endsWith (s suf : Text) : Bool := suf.isSuffixOf s

/-- `str::split_once` -/
def splitOnce (sep : Text) : Text → Option (Text × Text)
  | [] => if sep = [] then some ([], []) else none
  | c :: cs =>
    if startsWith (c :: cs) sep then some ([], (c :: cs).drop sep.length)
    else (splitOnce sep cs).map fun (before, after) => (c :: before, after)

/-- `str::eq_ignore_ascii_case` -/
def eqIgnoreAsciiCase (s t : Text) : Bool := s.map Char.toLower == t.map Char.toLower

/-- `line.truncate(line.strip_suffix('\r').map_or(line.len(), str::len))` -/
def stripCr (s : Text) : Text := if s.getLast? = some '\r' then s.dropLast else s

/-- The segments a text's newlines end, and the unterminated rest. -/
def splitNewlines : Text → List Text × Text
  | [] => ([], [])
  | c :: cs =>
    let (ls, r) := splitNewlines cs
    if c = '\n' then ([] :: ls, r)
    else match ls with
      | [] => ([], c :: r)
      | l :: ls => ((c :: l) :: ls, r)

/-- `str::lines`: a carriage return before a newline belongs to the line
ending; the last line counts only when it is not empty and keeps its own. -/
def lines (s : Text) : List Text :=
  let (ls, r) := splitNewlines s
  ls.map stripCr ++ if r = [] then [] else [r]

/-- `[&str]::join("\n")` -/
def joinLines : List Text → Text
  | [] => []
  | [l] => l
  | l :: ls => l ++ '\n' :: joinLines ls

/-! ## Whitespace at the end of a text -/

theorem isWhitespace_cr : isWhitespace '\r' = true := by decide

variable (s : Text) {c : Char}

theorem trimEnd_append_cr : trimEnd (s ++ ['\r']) = trimEnd s := by
  simp [trimEnd, isWhitespace_cr]

theorem trimStart_append_cr : trimEnd (trimStart (s ++ ['\r'])) = trimEnd (trimStart s) := by
  simp only [trimStart, List.dropWhile_append]
  split
  · next h =>
    rw [List.isEmpty_iff.1 h]
    decide
  · exact trimEnd_append_cr _

theorem trim_append_cr : trim (s ++ ['\r']) = trim s := trimStart_append_cr s

theorem eq_append_cr {s : Text} (h : s.getLast? = some '\r') : s = stripCr s ++ ['\r'] := by
  obtain ⟨m, rfl⟩ := List.getLast?_eq_some_iff.1 h
  simp [stripCr]

theorem stripCr_of_not_cr {s : Text} (h : s.getLast? ≠ some '\r') : stripCr s = s := by
  simp [stripCr, h]

theorem trimEnd_stripCr : trimEnd (stripCr s) = trimEnd s := by
  by_cases h : s.getLast? = some '\r'
  · conv_rhs => rw [eq_append_cr h, trimEnd_append_cr]
  · rw [stripCr_of_not_cr h]

theorem trim_stripCr : trim (stripCr s) = trim s := by
  by_cases h : s.getLast? = some '\r'
  · conv_rhs => rw [eq_append_cr h, trim_append_cr]
  · rw [stripCr_of_not_cr h]

/-! ## Splitting at newlines -/

theorem splitNewlines_no_newline : (∀ l ∈ (splitNewlines s).1, '\n' ∉ l) ∧ '\n' ∉ (splitNewlines s).2 := by
  induction s with
  | nil => simp [splitNewlines]
  | cons c cs ih =>
    obtain ⟨ih₁, ih₂⟩ := ih
    simp only [splitNewlines]
    split
    · exact ⟨by simpa using ih₁, ih₂⟩
    · next hc =>
      split
      · next heq => exact ⟨by simp, by simpa [Ne.symm hc] using ih₂⟩
      · next l ls heq =>
        rw [heq] at ih₁
        simp only [List.mem_cons, forall_eq_or_imp] at ih₁ ⊢
        exact ⟨⟨by simpa [Ne.symm hc] using ih₁.1, ih₁.2⟩, ih₂⟩

theorem splitNewlines_of_no_newline {s : Text} (h : '\n' ∉ s) : splitNewlines s = ([], s) := by
  induction s with
  | nil => rfl
  | cons c cs ih =>
    simp only [List.mem_cons, not_or] at h
    simp [splitNewlines, ih h.2, Ne.symm h.1]

theorem splitNewlines_line {l : Text} (h : '\n' ∉ l) (s : Text) :
    splitNewlines (l ++ '\n' :: s) = (l :: (splitNewlines s).1, (splitNewlines s).2) := by
  induction l with
  | nil => simp [splitNewlines]
  | cons c cs ih =>
    simp only [List.mem_cons, not_or] at h
    simp [splitNewlines, ih h.2, Ne.symm h.1]

/-- Joining the lines of a text and an unterminated rest, and splitting again, gives them back. -/
theorem splitNewlines_joinLines {ls} {r : Text} (hl : ∀ l ∈ ls, '\n' ∉ l) (hr : '\n' ∉ r) :
    splitNewlines (joinLines (ls ++ [r])) = (ls, r) := by
  induction ls with
  | nil => simp [joinLines, splitNewlines_of_no_newline hr]
  | cons l ls ih =>
    have hne : ls ++ [r] ≠ [] := by simp
    simp only [List.mem_cons, forall_eq_or_imp] at hl
    rw [List.cons_append, show joinLines (l :: (ls ++ [r])) = l ++ '\n' :: joinLines (ls ++ [r]) by
      cases h : ls ++ [r] with
      | nil => exact absurd h hne
      | cons => rfl]
    rw [splitNewlines_line hl.1, ih hl.2]

theorem not_mem_stripCr {s : Text} (h : c ∉ s) : c ∉ stripCr s := by
  unfold stripCr
  split
  · exact fun hc => h (List.dropLast_subset _ hc)
  · exact h

/-- A text is its terminated segments, each with its newline, and the rest. -/
theorem splitNewlines_flatten :
    ((splitNewlines s).1.map (· ++ ['\n'])).flatten ++ (splitNewlines s).2 = s := by
  induction s with
  | nil => rfl
  | cons c cs ih =>
    simp only [splitNewlines]
    split
    · next hc => simpa [hc] using ih
    · split
      · next heq => rw [heq] at ih; simpa using ih
      · next l ls heq => rw [heq] at ih; simpa using ih

/-- A text that does not end in a newline ends in its unterminated rest. -/
theorem splitNewlines_rest_ne_nil {s : Text} (hs : s ≠ []) (hl : s.getLast? ≠ some '\n') :
    (splitNewlines s).2 ≠ [] := by
  intro hr
  have h := splitNewlines_flatten s
  rw [hr, List.append_nil] at h
  rcases List.eq_nil_or_concat (splitNewlines s).1 with hnil | ⟨ls, l, hls⟩
  · rw [hnil] at h; exact hs h.symm
  · rw [hls] at h
    apply hl
    rw [← h]
    simp

theorem getLast?_of_trim_eq {s : Text} (h : trim s = s) (hc : s.getLast? = some c) :
    isWhitespace c = false := by
  have hne : s ≠ [] := by rintro rfl; simp at hc
  have hlast := List.rdropWhile_last_not isWhitespace (trimStart s) (by
    rw [show (trimStart s).rdropWhile isWhitespace = s from h]; exact hne)
  simp only [show (trimStart s).rdropWhile isWhitespace = s from h, Bool.not_eq_true] at hlast
  rw [List.getLast?_eq_some_getLast hne, Option.some.injEq] at hc
  rw [← hc]
  exact hlast

theorem trim_ne_nil {s : Text} (hc : c ∈ s) (hw : isWhitespace c = false) : trim s ≠ [] := by
  intro h
  have hstart : ∀ x ∈ s.dropWhile isWhitespace, isWhitespace x = true :=
    List.rdropWhile_eq_nil_iff.1 h
  rw [← List.takeWhile_append_dropWhile (p := isWhitespace) (l := s), List.mem_append] at hc
  rcases hc with hc | hc
  · simp [List.mem_takeWhile_imp hc] at hw
  · simp [hstart c hc] at hw

theorem splitOnce_eq {sep s before after : Text} (h : splitOnce sep s = some (before, after)) :
    s = before ++ sep ++ after := by
  induction s generalizing before with
  | nil =>
    rw [splitOnce] at h
    split at h
    next hsep =>
      cases h
      rw [hsep]
      rfl
    next => cases h
  | cons c s ih =>
    rw [splitOnce] at h
    split at h
    next hstart =>
      cases h
      exact (List.prefix_iff_eq_append.1 (List.isPrefixOf_iff_prefix.1 hstart)).symm
    next =>
      obtain ⟨⟨before', after'⟩, hsplit, heq⟩ := Option.map_eq_some_iff.1 h
      cases heq
      rw [ih hsplit]
      rfl

/-- The unterminated rest of a trimmed text is not blank. -/
theorem trim_rest_ne_nil {s : Text} (hs : s ≠ []) (h : trim s = s) : trim (splitNewlines s).2 ≠ [] := by
  obtain ⟨c, hlast⟩ : ∃ c, s.getLast? = some c := ⟨_, List.getLast?_eq_some_getLast hs⟩
  have hws := getLast?_of_trim_eq h hlast
  have hr : (splitNewlines s).2 ≠ [] := by
    apply splitNewlines_rest_ne_nil hs
    rw [hlast]
    intro hc
    rw [Option.some.injEq] at hc
    rw [hc] at hws
    exact absurd hws (by decide)
  rw [← splitNewlines_flatten s, List.getLast?_append_of_ne_nil _ hr] at hlast
  exact trim_ne_nil (List.mem_of_getLast? hlast) hws

end Text
end Codex
