/-
Cutting the middle out of a text (`utils/string/src/truncate.rs`): one pass over the
characters finds where the prefix ends and the suffix begins and counts what is
between them.

A position in the text is a count of bytes; slicing is possible between characters
only, and the pass finds such places (`splitString_eq`). A string's byte length fits an
`isize`, so the code's saturating sums are sums.
-/
import Codex.Lib.WeightedOffsets
import Codex.Text

namespace Codex.Truncation

open WeightedOffsets

def approxBytesPerToken : Nat := 4

/-- `str::len` -/
def len (s : Text) : Nat := weight Char.utf8Size s

def approxTokensFromByteCount (bytes : Nat) : Nat := (bytes + (approxBytesPerToken - 1)) / approxBytesPerToken

/-! ## The pass over the characters -/

structure Scan where
  prefixEnd : Nat
  suffixStart : Nat
  removedChars : Nat := 0
  suffixStarted : Bool := false

/-- The body of the loop of `split_string`, of a character and its index. -/
def scanChar (beginningBytes tailStartTarget : Nat) (scan : Scan) (entry : Nat × Char) : Scan :=
  let charEnd := entry.1 + entry.2.utf8Size
  if charEnd ≤ beginningBytes then { scan with prefixEnd := charEnd }
  else if tailStartTarget ≤ entry.1 then
    if !scan.suffixStarted then { scan with suffixStart := entry.1, suffixStarted := true } else scan
  else { scan with removedChars := scan.removedChars + 1 }

/-- `split_string`; none where a slice would begin or end within a character. -/
def splitString (s : Text) (beginningBytes endBytes : Nat) : Option (Nat × Text × Text) :=
  if s.isEmpty then some (0, [], [])
  else do
    let tailStartTarget := len s - endBytes
    let scan := (indexed Char.utf8Size 0 s).foldl (scanChar beginningBytes tailStartTarget)
      { prefixEnd := 0, suffixStart := len s }
    let suffixStart := if scan.suffixStart < scan.prefixEnd then scan.prefixEnd else scan.suffixStart
    let (before, _) ← splitAt Char.utf8Size s scan.prefixEnd
    let (_, after) ← splitAt Char.utf8Size s suffixStart
    return (scan.removedChars, before, after)

def splitBudget (budget : Nat) : Nat × Nat := (budget / 2, budget - budget / 2)

def formatTruncationMarker (useTokens : Bool) (removedCount : Nat) : Text :=
  if useTokens then "…".toList ++ (toString removedCount).toList ++ " tokens truncated…".toList
  else "…".toList ++ (toString removedCount).toList ++ " chars truncated…".toList

def removedUnits (useTokens : Bool) (removedBytes removedChars : Nat) : Nat :=
  if useTokens then approxTokensFromByteCount removedBytes else removedChars

def assembleTruncatedOutput (before after marker : Text) : Text := before ++ marker ++ after

def truncateWithByteEstimate (s : Text) (maxBytes : Nat) (useTokens : Bool) : Option Text :=
  if s.isEmpty then some []
  else if maxBytes = 0 then some (formatTruncationMarker useTokens (removedUnits useTokens (len s) s.length))
  else if len s ≤ maxBytes then some s
  else do
    let (leftBudget, rightBudget) := splitBudget maxBytes
    let (removedChars, left, right) ← splitString s leftBudget rightBudget
    let marker := formatTruncationMarker useTokens (removedUnits useTokens (len s - maxBytes) removedChars)
    return assembleTruncatedOutput left right marker

def truncateMiddleChars (s : Text) (maxBytes : Nat) : Option Text := truncateWithByteEstimate s maxBytes false

/-! ## What the pass finds -/

theorem len_nil : len [] = 0 := rfl

theorem len_cons (c : Char) (s : Text) : len (c :: s) = c.utf8Size + len s := weight_cons c s

theorem len_append (s t : Text) : len (s ++ t) = len s + len t := weight_append s t

variable {beginningBytes tailStartTarget : Nat} {scan : Scan} {p : Nat}

theorem scan_fitting {fits : Text} (h : p + len fits ≤ beginningBytes) :
    (indexed Char.utf8Size p fits).foldl (scanChar beginningBytes tailStartTarget) scan =
      { scan with prefixEnd := if fits = [] then scan.prefixEnd else p + len fits } := by
  induction fits generalizing p scan with
  | nil => rfl
  | cons c fits ih =>
    rw [len_cons] at h
    rw [indexed, List.foldl_cons, scanChar, if_pos (by dsimp only; omega), ih (by omega), if_neg (List.cons_ne_nil c fits), len_cons,
      ← Nat.add_assoc]
    split
    next hnil => rw [hnil, len_nil, Nat.add_zero]
    next => rfl

theorem scan_removing {removed : Text} (h : ∀ before c more, removed = before ++ c :: more →
      p + len before < tailStartTarget ∧ beginningBytes < p + len before + c.utf8Size) :
    (indexed Char.utf8Size p removed).foldl (scanChar beginningBytes tailStartTarget) scan =
      { scan with removedChars := scan.removedChars + removed.length } := by
  induction removed generalizing p scan with
  | nil => rfl
  | cons c removed ih =>
    have hhead := h [] c removed rfl
    rw [len_nil, Nat.add_zero] at hhead
    rw [indexed, List.foldl_cons, scanChar, if_neg (by dsimp only; omega), if_neg (by dsimp only; omega), ih]
    · rw [List.length_cons, Nat.add_assoc, Nat.add_comm 1]
    · rintro before d more rfl
      have hrest := h (c :: before) d more rfl
      rwa [len_cons, ← Nat.add_assoc] at hrest

theorem scan_after {after : Text} (h : ∀ before c more, after = before ++ c :: more →
      tailStartTarget ≤ p + len before ∧ beginningBytes < p + len before + c.utf8Size) (hstarted : scan.suffixStarted = false) :
    ((indexed Char.utf8Size p after).foldl (scanChar beginningBytes tailStartTarget) scan).suffixStart =
        (if after = [] then scan.suffixStart else p) ∧
      ((indexed Char.utf8Size p after).foldl (scanChar beginningBytes tailStartTarget) scan).prefixEnd = scan.prefixEnd ∧
      ((indexed Char.utf8Size p after).foldl (scanChar beginningBytes tailStartTarget) scan).removedChars = scan.removedChars := by
  have hrest : ∀ {after : Text} {p : Nat} (scan : Scan), (∀ before c more, after = before ++ c :: more →
      tailStartTarget ≤ p + len before ∧ beginningBytes < p + len before + c.utf8Size) → scan.suffixStarted = true →
      (indexed Char.utf8Size p after).foldl (scanChar beginningBytes tailStartTarget) scan = scan := by
    intro after
    induction after with
    | nil => exact fun _ _ _ => rfl
    | cons c after ih =>
      intro p scan h hstarted
      have hhead := h [] c after rfl
      rw [len_nil, Nat.add_zero] at hhead
      rw [indexed, List.foldl_cons, scanChar, if_neg (by dsimp only; omega), if_pos hhead.1, hstarted]
      refine ih _ ?_ hstarted
      rintro before d more rfl
      have hrest := h (c :: before) d more rfl
      rwa [len_cons, ← Nat.add_assoc] at hrest
  cases after with
  | nil => exact ⟨rfl, rfl, rfl⟩
  | cons c after =>
    have hhead := h [] c after rfl
    rw [len_nil, Nat.add_zero] at hhead
    rw [indexed, List.foldl_cons, scanChar, if_neg (by dsimp only; omega), if_pos hhead.1, hstarted]
    rw [hrest (if (!false) = true then { scan with suffixStart := p, suffixStarted := true } else scan) ?_ rfl]
    · exact ⟨rfl, rfl, rfl⟩
    · rintro before d more rfl
      have hrest := h (c :: before) d more rfl
      rwa [len_cons, ← Nat.add_assoc] at hrest

theorem exists_fitting (budget : Nat) (s : Text) : ∃ fits rest, s = fits ++ rest ∧ len fits ≤ budget ∧
    ∀ before c more, rest = before ++ c :: more → budget < len fits + len before + c.utf8Size := by
  induction s generalizing budget with
  | nil => exact ⟨[], [], rfl, Nat.zero_le _, fun _ _ _ h => by simp at h⟩
  | cons c s ih =>
    by_cases hfits : c.utf8Size ≤ budget
    · obtain ⟨fits, rest, rfl, hle, hnext⟩ := ih (budget - c.utf8Size)
      refine ⟨c :: fits, rest, rfl, ?_, fun before d more hrest => ?_⟩
      · rw [len_cons]
        omega
      · have := hnext before d more hrest
        rw [len_cons]
        omega
    · refine ⟨[], c :: s, rfl, Nat.zero_le _, fun before d more hrest => ?_⟩
      rw [len_nil]
      cases before with
      | nil =>
        obtain ⟨rfl, -⟩ := List.cons.inj hrest
        omega
      | cons d before =>
        obtain ⟨rfl, -⟩ := List.cons.inj hrest
        rw [len_cons]
        omega

/-- What begins before the target, and the rest. -/
theorem exists_reaching (p target : Nat) (s : Text) : ∃ removed after, s = removed ++ after ∧
    (∀ before c more, removed = before ++ c :: more → p + len before < target) ∧
    (after ≠ [] → target ≤ p + len removed) := by
  induction s generalizing p with
  | nil => exact ⟨[], [], rfl, fun _ _ _ h => by simp at h, fun h => absurd rfl h⟩
  | cons c s ih =>
    by_cases hreached : target ≤ p
    · exact ⟨[], c :: s, rfl, fun _ _ _ h => by simp at h, fun _ => hreached⟩
    · obtain ⟨removed, after, rfl, hremoved, hafter⟩ := ih (p + c.utf8Size)
      refine ⟨c :: removed, after, rfl, fun before d more heq => ?_, fun hne => ?_⟩
      · cases before with
        | nil =>
          rw [len_nil]
          omega
        | cons e before =>
          obtain ⟨rfl, hrest⟩ := List.cons.inj heq
          have := hremoved before d more hrest
          rw [len_cons]
          omega
      · have := hafter hne
        rw [len_cons]
        omega

structure LongestPrefix (s : Text) (budget : Nat) (before : Text) : Prop where
  begins : before <+: s
  fits : len before ≤ budget
  longest : ∀ other, other <+: s → len other ≤ budget → other <+: before

structure LongestSuffix (s : Text) (budget : Nat) (after : Text) : Prop where
  ends : after <:+ s
  fits : len after ≤ budget
  longest : ∀ other, other <:+ s → len other ≤ budget → other <:+ after

theorem splitString_eq {s : Text} {beginningBytes endBytes : Nat} (h : beginningBytes + endBytes < len s) :
    ∃ before removed after, splitString s beginningBytes endBytes = some (removed.length, before, after) ∧
      s = before ++ removed ++ after ∧ LongestPrefix s beginningBytes before ∧ LongestSuffix s endBytes after := by
  obtain ⟨before, rest, rfl, hbefore, hrest⟩ := exists_fitting beginningBytes s
  obtain ⟨removed, after, rfl, hremoved, hafter⟩ := exists_reaching (len before) (len (before ++ rest) - endBytes) rest
  have hlen : len (before ++ (removed ++ after)) = len before + (len removed + len after) := by rw [len_append, len_append]
  rw [hlen] at hremoved hafter h
  have hfits : len after ≤ endBytes := by
    by_cases hnil : after = []
    · rw [hnil, len_nil]
      exact Nat.zero_le _
    · have := hafter hnil
      omega
  refine ⟨before, removed, after, ?_, (List.append_assoc ..).symm, ⟨List.prefix_append .., hbefore, ?_⟩, ⟨?_, hfits, ?_⟩⟩
  · have hafterEnds : ∀ front c more, after = front ++ c :: more →
        len before + (len removed + len after) - endBytes ≤ len before + len removed + len front ∧
          beginningBytes < len before + len removed + len front + c.utf8Size := by
      rintro front c more heq
      have hstart := hafter (by rw [heq]; simp)
      have hend := hrest (removed ++ front) c more (by rw [heq, List.append_assoc])
      rw [len_append] at hend
      omega
    have hremovedEnds : ∀ front c more, removed = front ++ c :: more →
        len before + len front < len before + (len removed + len after) - endBytes ∧
          beginningBytes < len before + len front + c.utf8Size := by
      rintro front c more heq
      exact ⟨hremoved front c more heq, hrest front c (more ++ after) (by rw [heq]; simp)⟩
    obtain ⟨hsuffix, hprefix, hcount⟩ := @scan_after _ _ {
      prefixEnd := if before = [] then 0 else len before, suffixStart := len before + (len removed + len after),
      removedChars := 0 + removed.length } _ _ hafterEnds rfl
    have hbeforeEnd : (if before = [] then 0 else len before) = len before := by
      split
      next hnil => rw [hnil, len_nil]
      next => rfl
    have hafterStart : (if after = [] then len before + (len removed + len after) else len before + len removed) =
        len (before ++ removed) := by
      rw [len_append]
      split
      next hnil => rw [hnil, len_nil, Nat.add_zero]
      next => rfl
    rw [hbeforeEnd] at hsuffix hprefix hcount
    rw [hafterStart] at hsuffix
    rw [splitString, if_neg (by rw [List.isEmpty_iff]; intro hnil; rw [← hlen, hnil, len_nil] at h; omega), hlen]
    dsimp only
    have hindexed : ∀ start (xs ys : Text), indexed Char.utf8Size start (xs ++ ys) =
        indexed Char.utf8Size start xs ++ indexed Char.utf8Size (start + len xs) ys := indexed_append
    rw [hindexed, List.foldl_append, scan_fitting (show 0 + len before ≤ beginningBytes by omega), hindexed,
      List.foldl_append, Nat.zero_add, scan_removing hremovedEnds]
    dsimp only at hprefix hcount ⊢
    have hcutBefore : splitAt Char.utf8Size (before ++ (removed ++ after)) (len before) = some (before, removed ++ after) :=
      splitAt_append Char.utf8Size_pos before (removed ++ after)
    have hcutAfter : splitAt Char.utf8Size (before ++ (removed ++ after)) (len (before ++ removed)) =
        some (before ++ removed, after) := by
      rw [← List.append_assoc]
      exact splitAt_append Char.utf8Size_pos (before ++ removed) after
    rw [hbeforeEnd, hsuffix, hprefix, hcount, if_neg (by rw [len_append]; omega), Nat.zero_add, hcutBefore, hcutAfter]
    rfl
  · intro other hother hle
    rcases List.prefix_or_prefix_of_prefix hother (List.prefix_append before (removed ++ after)) with hshort | ⟨more, rfl⟩
    · exact hshort
    · cases more with
      | nil => simp
      | cons c more =>
        obtain ⟨tail, htail⟩ := (List.prefix_append_right_inj before).1 hother
        have hnext := hrest [] c (more ++ tail) htail.symm
        rw [len_append, len_cons] at hle
        rw [len_nil] at hnext
        omega
  · exact ⟨before ++ removed, List.append_assoc ..⟩
  · intro other hother hle
    rw [← List.append_assoc] at hother
    rcases List.suffix_or_suffix_of_suffix hother (List.suffix_append (before ++ removed) after) with hshort | ⟨more, rfl⟩
    · exact hshort
    · obtain ⟨front, hfront⟩ := hother
      rw [← List.append_assoc, List.append_cancel_right_eq] at hfront
      rw [len_append] at hle
      rcases List.eq_nil_or_concat removed with rfl | ⟨r, d, rfl⟩
      · rw [len_nil] at h
        omega
      · have hlast := hremoved r d [] (List.concat_eq_append ..)
        rw [List.concat_eq_append, len_append, len_cons, len_nil] at hlast
        rcases List.eq_nil_or_concat more with rfl | ⟨m, c, rfl⟩
        · exact List.suffix_refl after
        · rw [List.concat_eq_append, List.concat_eq_append, ← List.append_assoc, ← List.append_assoc] at hfront
          obtain rfl := List.singleton_inj.1 (List.append_inj_right' hfront rfl)
          rw [List.concat_eq_append, len_append, len_cons, len_nil] at hle
          omega

/-- **The ends are kept, and the rest counted.** -/
theorem truncateWithByteEstimate_ends {s : Text} {maxBytes : Nat} (useTokens : Bool) (hpos : 1 ≤ maxBytes)
    (hlong : maxBytes < len s) :
    ∃ before removed after count,
      truncateWithByteEstimate s maxBytes useTokens = some (before ++ formatTruncationMarker useTokens count ++ after) ∧
        s = before ++ removed ++ after ∧ LongestPrefix s (maxBytes / 2) before ∧
        LongestSuffix s (maxBytes - maxBytes / 2) after ∧ len before + len after ≤ maxBytes ∧
        (useTokens = false → count = removed.length) := by
  obtain ⟨before, removed, after, hsplit, hs, hbefore, hafter⟩ :=
    splitString_eq (show maxBytes / 2 + (maxBytes - maxBytes / 2) < len s by omega)
  refine ⟨before, removed, after, removedUnits useTokens (len s - maxBytes) removed.length, ?_, hs, hbefore, hafter, ?_, ?_⟩
  · rw [truncateWithByteEstimate, if_neg, if_neg (Nat.ne_of_gt hpos), if_neg (Nat.not_le_of_gt hlong)]
    · dsimp only [splitBudget]
      rw [hsplit]
      rfl
    · rw [List.isEmpty_iff]
      intro hnil
      rw [hnil, len_nil] at hlong
      exact absurd hlong (Nat.not_lt_zero _)
  · have := hbefore.fits
    have := hafter.fits
    omega
  · rintro rfl
    rfl

theorem truncateWithByteEstimate_ends_umlauts :
    ∃ before removed after count,
      truncateWithByteEstimate "äöü€xß".toList 6 false = some (before ++ formatTruncationMarker false count ++ after) ∧
        "äöü€xß".toList = before ++ removed ++ after ∧ LongestPrefix "äöü€xß".toList (6 / 2) before ∧
        LongestSuffix "äöü€xß".toList (6 - 6 / 2) after ∧ len before + len after ≤ 6 ∧
        (false = false → count = removed.length) :=
  truncateWithByteEstimate_ends false (by decide) (by decide)

end Codex.Truncation
