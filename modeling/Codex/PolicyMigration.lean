/-
What a migration leaves of a rules file that calls append to meanwhile.

The text the two writers work on, without the migration, is the initial file with the
returned calls' lines appended (`written`), and the newline of a call that has repaired
the end but not yet written its line. The invariant says the file holds that text, its
stripped form, or the stripped form over the tail of the old one, by where the migration
is. It survives every step of a run whose appends stay out of the migration's
read-to-truncate section (`Apart`), which nothing in the code does.
-/
import Codex.PolicyFile

namespace Codex.PolicyFile

open Text

/-! ## Banned lines -/

section
variable {json : JsonCodec} {banned : List (List Text)}

/-- The rules to remove: `prefix_rule(pattern=P, decision="allow")`, with or without a carriage
return, whose `P` is a JSON array of strings equal to a banned prefix up to ASCII case. -/
def BannedRule (json : JsonCodec) (banned : List (List Text)) (line : Text) : Prop :=
  ∃ pattern tokens, (line = rulePrefix ++ pattern ++ ruleSuffix ∨ line = rulePrefix ++ pattern ++ ruleSuffix ++ ['\r']) ∧
    json.fromStr pattern = some tokens ∧ ∃ ban ∈ banned, lowercase tokens = lowercase ban

theorem stripStart_eq_some {pre s rest : Text} : stripStart pre s = some rest ↔ s = pre ++ rest := by
  unfold stripStart
  split
  · next h =>
    obtain ⟨t, rfl⟩ := List.isPrefixOf_iff_prefix.1 h
    simp
  · next h =>
    refine ⟨nofun, ?_⟩
    rintro rfl
    exact absurd (List.isPrefixOf_iff_prefix.2 (List.prefix_append _ _)) h

theorem stripEnd_eq_some {suffix s rest : Text} : stripEnd suffix s = some rest ↔ s = rest ++ suffix := by
  unfold stripEnd
  split
  · next h =>
    obtain ⟨t, rfl⟩ := List.isSuffixOf_iff_suffix.1 h
    simp
  · next h =>
    refine ⟨nofun, ?_⟩
    rintro rfl
    exact absurd (List.isSuffixOf_iff_suffix.2 (List.suffix_append _ _)) h

variable {line : Text}

theorem isBannedRule_iff : isBannedRule json banned line = true ↔ ∃ pattern tokens,
    line = rulePrefix ++ pattern ++ ruleSuffix ∧ json.fromStr pattern = some tokens ∧
      ∃ ban ∈ banned, lowercase tokens = lowercase ban := by
  have hstrip (pattern : Text) : (stripStart rulePrefix line).bind (stripEnd ruleSuffix) = some pattern ↔
      line = rulePrefix ++ pattern ++ ruleSuffix := by
    simp [Option.bind_eq_some_iff, stripStart_eq_some, stripEnd_eq_some]
  unfold isBannedRule
  split
  · next hnone =>
    refine ⟨nofun, ?_⟩
    rintro ⟨pattern, _, hline, -⟩
    rw [(hstrip pattern).2 hline] at hnone
    cases hnone
  · next pattern hsome =>
    have hline := (hstrip pattern).1 hsome
    constructor
    · intro h
      split at h
      · cases h
      · next tokens htokens =>
        obtain ⟨ban, hban, heq⟩ := List.mem_map.1 (List.contains_iff_mem.1 h)
        exact ⟨pattern, tokens, hline, htokens, ban, hban, heq.symm⟩
    · rintro ⟨pattern', tokens, hline', htokens, ban, hban, heq⟩
      rw [hline, List.append_left_inj, List.append_right_inj] at hline'
      subst hline'
      simp only [htokens, List.contains_iff_mem]
      exact List.mem_map.2 ⟨ban, hban, heq.symm⟩

/-- A rule ends in a closing bracket. -/
theorem ruleSuffix_last (s : Text) : (s ++ ruleSuffix).getLast? = some ')' := by
  rw [List.getLast?_append_of_ne_nil _ (by decide)]
  decide

theorem isBannedRule_stripCr (h : isBannedRule json banned line = true) : stripCr line = line := by
  obtain ⟨pattern, _, rfl, -⟩ := isBannedRule_iff.1 h
  apply stripCr_of_not_cr
  rw [ruleSuffix_last]
  decide

theorem stripEnd_cr_getD (line : Text) : (stripEnd ['\r'] line).getD line = stripCr line := by
  by_cases h : line.getLast? = some '\r'
  · conv_lhs => rw [stripEnd_eq_some.2 (eq_append_cr h), Option.getD_some]
  · cases hs : stripEnd ['\r'] line with
    | none => rw [Option.getD_none, stripCr_of_not_cr h]
    | some rest =>
      rw [stripEnd_eq_some] at hs
      exact absurd (by rw [hs]; simp) h

theorem shouldRemoveRule_line (line : Text) :
    shouldRemoveRule json banned (line ++ ['\n']) = isBannedRule json banned (stripCr line) := by
  simp only [shouldRemoveRule]
  rw [stripEnd_eq_some.2 rfl, Option.getD_some, stripEnd_cr_getD]

theorem shouldRemoveRule_rest (h : '\n' ∉ line) :
    shouldRemoveRule json banned line = isBannedRule json banned (stripCr line) := by
  cases hs : stripEnd ['\n'] line with
  | none => simp only [shouldRemoveRule, hs, Option.getD_none, stripEnd_cr_getD]
  | some rest =>
    rw [stripEnd_eq_some] at hs
    exact absurd (by simp [hs]) h

theorem isBannedRule_stripCr_iff :
    isBannedRule json banned (stripCr line) = true ↔ BannedRule json banned line := by
  rw [isBannedRule_iff]
  constructor
  · rintro ⟨pattern, tokens, hline, hban⟩
    refine ⟨pattern, tokens, ?_, hban⟩
    by_cases h : line.getLast? = some '\r'
    · exact .inr (hline ▸ eq_append_cr h)
    · exact .inl (stripCr_of_not_cr h ▸ hline)
  · rintro ⟨pattern, tokens, rfl | rfl, hban⟩
    · refine ⟨pattern, tokens, stripCr_of_not_cr ?_, hban⟩
      rw [ruleSuffix_last]
      decide
    · exact ⟨pattern, tokens, by simp [stripCr], hban⟩

/-- **The test of the migration.** It removes a line, terminated or last, when it is a banned rule. -/
theorem shouldRemoveRule_iff (h : '\n' ∉ line) :
    (shouldRemoveRule json banned (line ++ ['\n']) = true ↔ BannedRule json banned line) ∧
      (shouldRemoveRule json banned line = true ↔ BannedRule json banned line) := by
  rw [shouldRemoveRule_line, shouldRemoveRule_rest h]
  exact ⟨isBannedRule_stripCr_iff, isBannedRule_stripCr_iff⟩

end

/-! ## A text by its lines -/

/-- The text of terminated lines and an unterminated rest. -/
def assemble (ls : List Text) (rest : Text) : Text := (ls.map (· ++ ['\n'])).flatten ++ rest

variable {ls : List Text} {rest c : Text} {s' : RulesFile} {i : Nat} {actions : List Action}

theorem splitNewlines_assemble (hl : ∀ l ∈ ls, '\n' ∉ l) (hr : '\n' ∉ rest) :
    splitNewlines (assemble ls rest) = (ls, rest) := by
  induction ls with
  | nil => exact splitNewlines_of_no_newline hr
  | cons l ls ih =>
    simp only [List.mem_cons, forall_eq_or_imp] at hl
    have happ : assemble (l :: ls) rest = l ++ '\n' :: assemble ls rest := by simp [assemble]
    rw [happ, splitNewlines_line hl.1, ih hl.2]

theorem exists_assemble (c : Text) : ∃ ls rest, c = assemble ls rest ∧ (∀ l ∈ ls, '\n' ∉ l) ∧ '\n' ∉ rest :=
  ⟨(splitNewlines c).1, (splitNewlines c).2, (splitNewlines_flatten c).symm, splitNewlines_no_newline c⟩

theorem lines_assemble (hl : ∀ l ∈ ls, '\n' ∉ l) (hr : '\n' ∉ rest) :
    lines (assemble ls rest) = ls.map stripCr ++ if rest = [] then [] else [rest] := by
  simp only [lines, splitNewlines_assemble hl hr]

theorem needsNewline_assemble (hr : '\n' ∉ rest) : needsNewline (assemble ls rest) = true ↔ rest ≠ [] := by
  by_cases hnil : rest = []
  · subst hnil
    rcases List.eq_nil_or_concat ls with rfl | ⟨ls', l, rfl⟩
    · simp [assemble, needsNewline]
    · simp [assemble, needsNewline]
  · have hlast : rest.getLast? ≠ some '\n' := fun h => hr (List.mem_of_getLast? h)
    simp [needsNewline, hnil, hlast, assemble]

theorem assemble_newline (ls : List Text) (rest : Text) :
    assemble ls rest ++ ['\n'] = assemble (ls ++ [rest]) [] := by simp [assemble]

theorem assemble_line (ls : List Text) (line : Text) :
    assemble ls [] ++ (line ++ ['\n']) = assemble (ls ++ [line]) [] := by simp [assemble]

/-! ## Stripping -/

section
variable {json : JsonCodec} {banned : List (List Text)}

/-- Whether the migration keeps a line. -/
def keeps (json : JsonCodec) (banned : List (List Text)) (line : Text) : Bool := !isBannedRule json banned (stripCr line)

def keptRest (json : JsonCodec) (banned : List (List Text)) (rest : Text) : Text :=
  if keeps json banned rest then rest else []

theorem stripBannedAllowRules_assemble (hl : ∀ l ∈ ls, '\n' ∉ l) (hr : '\n' ∉ rest) :
    stripBannedAllowRules json banned (assemble ls rest) =
      assemble (ls.filter (keeps json banned)) (keptRest json banned rest) := by
  have hls : (ls.map (· ++ ['\n'])).filter (!shouldRemoveRule json banned ·) =
      (ls.filter (keeps json banned)).map (· ++ ['\n']) := by
    rw [List.filter_map]
    congr 1
    apply List.filter_congr
    intro l _
    simp only [Function.comp, shouldRemoveRule_line, keeps]
  simp only [stripBannedAllowRules, splitInclusive, splitNewlines_assemble hl hr, List.filter_append,
    List.flatten_append, hls]
  unfold assemble
  by_cases hnil : rest = []
  · subst hnil
    simp [keptRest]
  · rw [if_neg hnil]
    by_cases hban : isBannedRule json banned (stripCr rest) = true
    · simp [shouldRemoveRule_rest hr, keptRest, keeps, hban]
    · simp [shouldRemoveRule_rest hr, keptRest, keeps, hban]

theorem no_newline_filter (hl : ∀ l ∈ ls, '\n' ∉ l) :
    ∀ l ∈ ls.filter (keeps json banned), '\n' ∉ l := fun l h => hl l (List.mem_of_mem_filter h)

theorem no_newline_keptRest (hr : '\n' ∉ rest) : '\n' ∉ keptRest json banned rest := by
  unfold keptRest
  split
  · exact hr
  · simp

theorem needsNewline_strip (h : needsNewline (stripBannedAllowRules json banned c) = true) :
    needsNewline c = true := by
  obtain ⟨ls, rest, rfl, hl, hr⟩ := exists_assemble c
  rw [stripBannedAllowRules_assemble hl hr, needsNewline_assemble (no_newline_keptRest hr)] at h
  rw [needsNewline_assemble hr]
  rintro rfl
  simp [keptRest] at h

/-- The newline after a line the migration keeps. -/
theorem strip_newline (h : needsNewline (stripBannedAllowRules json banned c) = true) :
    stripBannedAllowRules json banned (c ++ ['\n']) = stripBannedAllowRules json banned c ++ ['\n'] := by
  obtain ⟨ls, rest, rfl, hl, hr⟩ := exists_assemble c
  rw [stripBannedAllowRules_assemble hl hr, needsNewline_assemble (no_newline_keptRest hr)] at h
  have hkeep : keeps json banned rest = true := by
    by_contra hk
    simp [keptRest, hk] at h
  rw [assemble_newline, stripBannedAllowRules_assemble (by simpa [or_imp, forall_and] using ⟨hl, hr⟩) (by simp),
    stripBannedAllowRules_assemble hl hr, assemble_newline]
  simp [keptRest, hkeep]

theorem strip_newline_removed (hc : needsNewline c = true)
    (h : needsNewline (stripBannedAllowRules json banned c) ≠ true) :
    stripBannedAllowRules json banned (c ++ ['\n']) = stripBannedAllowRules json banned c := by
  obtain ⟨ls, rest, rfl, hl, hr⟩ := exists_assemble c
  rw [stripBannedAllowRules_assemble hl hr, Ne, needsNewline_assemble (no_newline_keptRest hr), not_not] at h
  rw [needsNewline_assemble hr] at hc
  have hkeep : keeps json banned rest ≠ true := by
    intro hk
    exact hc (by simpa [keptRest, hk] using h)
  rw [assemble_newline, stripBannedAllowRules_assemble (by simpa [or_imp, forall_and] using ⟨hl, hr⟩) (by simp),
    stripBannedAllowRules_assemble hl hr]
  simp [keptRest, hkeep]

/-- A line the calls may append: no newline in it, and no banned rule. -/
structure Appendable (json : JsonCodec) (banned : List (List Text)) (line : Text) : Prop where
  oneLine : '\n' ∉ line
  notBanned : ¬ BannedRule json banned line

namespace Appendable

variable {line : Text}

theorem keeps (h : Appendable json banned line) : keeps json banned line = true := by
  have hban : isBannedRule json banned (stripCr line) ≠ true := fun hb => h.notBanned (isBannedRule_stripCr_iff.1 hb)
  simpa [PolicyFile.keeps] using hban

/-- Nor is it a banned rule before its carriage return is taken off. -/
theorem not_isBannedRule (h : Appendable json banned line) : isBannedRule json banned line ≠ true := by
  intro hban
  apply h.notBanned
  rw [← isBannedRule_stripCr_iff, isBannedRule_stripCr hban, hban]

theorem strip_line (h : Appendable json banned line) (hc : needsNewline c ≠ true) :
    stripBannedAllowRules json banned (c ++ (line ++ ['\n'])) =
      stripBannedAllowRules json banned c ++ (line ++ ['\n']) := by
  obtain ⟨ls, rest, rfl, hl, hr⟩ := exists_assemble c
  rw [Ne, needsNewline_assemble hr, not_not] at hc
  subst hc
  rw [assemble_line, stripBannedAllowRules_assemble (by simpa [or_imp, forall_and] using ⟨hl, h.oneLine⟩) hr,
    stripBannedAllowRules_assemble hl hr, show keptRest json banned [] = [] by simp [keptRest], assemble_line]
  simp [h.keeps]

/-- The migration hides no line a call looks for. -/
theorem mem_lines_strip (h : Appendable json banned line) :
    line ∈ lines (stripBannedAllowRules json banned c) ↔ line ∈ lines c := by
  obtain ⟨ls, rest, rfl, hl, hr⟩ := exists_assemble c
  rw [stripBannedAllowRules_assemble hl hr, lines_assemble (no_newline_filter hl) (no_newline_keptRest hr),
    lines_assemble hl hr, List.mem_append, List.mem_append]
  apply or_congr
  · simp only [List.mem_map, List.mem_filter]
    constructor
    · rintro ⟨l, ⟨hmem, -⟩, heq⟩
      exact ⟨l, hmem, heq⟩
    · rintro ⟨l, hmem, rfl⟩
      exact ⟨l, ⟨hmem, by simpa [PolicyFile.keeps] using h.not_isBannedRule⟩, rfl⟩
  · by_cases heq : rest = line
    · simp [heq, keptRest, h.keeps]
    · have hne : line ≠ rest := Ne.symm heq
      by_cases hk : PolicyFile.keeps json banned rest = true
      · simp [keptRest, hk]
      · by_cases hnil : rest = []
        · simp [keptRest, hnil]
        · simp [keptRest, hk, hnil, hne]

end Appendable

/-- **A rule the appender writes for a banned prefix is one to remove**, whatever the case of its
letters. -/
theorem bannedRule_allowPrefixRule {tokens ban} (hban : ban ∈ banned) (hcase : lowercase tokens = lowercase ban)
    (hparse : json.fromStr ("[".toList ++ commaJoin (tokens.map json.toString) ++ "]".toList) = some tokens) :
    BannedRule json banned (allowPrefixRule json tokens) :=
  ⟨_, tokens, .inl rfl, hparse, ban, hban, hcase⟩

end

/-! ## The invariant -/

namespace AppenderPc

def holdsLock : AppenderPc → Bool
  | .locked | .newline | .line => true
  | _ => false

end AppenderPc

namespace MigrationPc

/-- From the read through its handle to the truncation. -/
def inSection : MigrationPc → Bool
  | .rewriting _ | .truncating _ => true
  | _ => false

end MigrationPc

/-- The file with the lines of the calls that have returned. -/
def RulesFile.written (initial : Text) (s : RulesFile) : Text := s.appended.foldl appendLine initial

section
variable (json : JsonCodec) (banned : List (List Text)) (lineOf : Nat → Text)

/-- What the file holds when `text` is what the calls alone would have made of it. -/
def Shows (text contents : Text) : MigrationPc → Prop
  | .rewriting retained => contents = text ∧ retained = stripBannedAllowRules json banned text
  | .truncating retained =>
    contents = retained ++ text.drop retained.length ∧ retained = stripBannedAllowRules json banned text
  | .unchanged => contents = text ∧ stripBannedAllowRules json banned text = text
  | .cleaned => contents = stripBannedAllowRules json banned text
  | _ => contents = text

structure Consistent (initial text : Text) (s : RulesFile) : Prop where
  shows : Shows json banned text s.contents s.migration
  locked : ∀ i, (s.appender i).holdsLock = true → s.lock = some i
  idle : (∀ i, s.appender i ≠ .newline ∧ s.appender i ≠ .line) → text = s.written initial
  newline : ∀ i, s.appender i = .newline → text = s.written initial ∧ lineOf i ∉ lines text ∧
    needsNewline s.contents = true ∧ s.migration.inSection = false
  line : ∀ i, s.appender i = .line → needsNewline text ≠ true ∧
    appendLine (s.written initial) (lineOf i) = text ++ (lineOf i ++ ['\n'])
  returned : ∀ l, l ∈ s.appended ↔ ∃ i, s.appender i = .returned ∧ lineOf i = l

/-- The steps that keep appends out of the migration's section: no call reads or writes in it, and
it does not begin while a call has yet to write a newline it found missing. -/
def Apart (s : RulesFile) : Action → Prop
  | .migrate => s.migration = .opened → stripBannedAllowRules json banned s.contents ≠ s.contents →
    ∀ i, s.appender i ≠ .newline
  | .append i => (s.appender i).holdsLock = true → s.migration.inSection = false
  | .fail _ => True

def ApartRun (s : RulesFile) : List Action → Prop
  | [] => True
  | action :: actions => Apart json banned s action ∧ ApartRun (step json banned lineOf s action) actions

end

namespace Shows

variable {json : JsonCodec} {banned : List (List Text)} {text contents line : Text} {pc : MigrationPc}

/-- Outside the section the file is the text, or what stripping leaves of it. -/
theorem eq_or (h : Shows json banned text contents pc) (hpc : pc.inSection = false) :
    contents = text ∨ pc = .cleaned ∧ contents = stripBannedAllowRules json banned text := by
  cases pc <;> simp_all [Shows, MigrationPc.inSection]

theorem mem_lines (h : Shows json banned text contents pc) (hpc : pc.inSection = false)
    (hline : Appendable json banned line) : line ∈ lines contents ↔ line ∈ lines text := by
  rcases h.eq_or hpc with rfl | ⟨-, rfl⟩
  · rfl
  · exact hline.mem_lines_strip

theorem needsNewline_text (h : Shows json banned text contents pc) (hpc : pc.inSection = false)
    (hc : needsNewline contents = true) : needsNewline text = true := by
  rcases h.eq_or hpc with rfl | ⟨-, rfl⟩
  · exact hc
  · exact needsNewline_strip hc

/-- A call adds the newline it found missing. -/
theorem write_newline (h : Shows json banned text contents pc) (hpc : pc.inSection = false)
    (hc : needsNewline contents = true) : Shows json banned (text ++ ['\n']) (contents ++ ['\n']) pc := by
  cases pc with
  | start | opening | opened => exact congrArg (· ++ ['\n']) h
  | rewriting r | truncating r => simp [MigrationPc.inSection] at hpc
  | unchanged =>
    obtain ⟨rfl, hstrip⟩ := h
    refine ⟨rfl, ?_⟩
    rw [strip_newline (by rw [hstrip]; exact hc), hstrip]
  | cleaned =>
    obtain rfl : contents = _ := h
    exact (strip_newline hc).symm

/-- A call that finds no newline missing, because the migration took the unterminated line away,
goes on as if it had added one. -/
theorem end_line (h : Shows json banned text contents pc) (hpc : pc.inSection = false)
    (hc : needsNewline contents ≠ true) :
    Shows json banned (text ++ if needsNewline text then ['\n'] else []) contents pc := by
  by_cases ht : needsNewline text = true
  · rw [if_pos ht]
    rcases h.eq_or hpc with rfl | ⟨rfl, rfl⟩
    · exact absurd ht hc
    · exact (strip_newline_removed ht hc).symm
  · rwa [if_neg ht, List.append_nil]

theorem write_line (h : Shows json banned text contents pc) (hpc : pc.inSection = false)
    (ht : needsNewline text ≠ true) (hline : Appendable json banned line) :
    Shows json banned (text ++ (line ++ ['\n'])) (contents ++ (line ++ ['\n'])) pc := by
  cases pc with
  | start | opening | opened => exact congrArg (· ++ (line ++ ['\n'])) h
  | rewriting r | truncating r => simp [MigrationPc.inSection] at hpc
  | unchanged =>
    obtain ⟨rfl, hstrip⟩ := h
    exact ⟨rfl, by rw [hline.strip_line ht, hstrip]⟩
  | cleaned =>
    obtain rfl : contents = _ := h
    exact (hline.strip_line ht).symm

end Shows

theorem appendLine_of_mem {line : Text} (h : line ∈ lines c) : appendLine c line = c := if_pos h

theorem appendLine_of_not_mem {line : Text} (h : line ∉ lines c) :
    appendLine c line = c ++ (if needsNewline c then ['\n'] else []) ++ (line ++ ['\n']) := if_neg h

/-- What a call writes its line after ends in a newline or is empty. -/
theorem needsNewline_ended (c : Text) : needsNewline (c ++ if needsNewline c then ['\n'] else []) ≠ true := by
  by_cases h : needsNewline c = true
  · rw [if_pos h]
    simp [needsNewline]
  · rwa [if_neg h, List.append_nil]

namespace Consistent

variable {json : JsonCodec} {banned : List (List Text)} {lineOf : Nat → Text} {initial text : Text} {s : RulesFile}

theorem initially (file : Option Text) : Consistent json banned lineOf (file.getD []) (file.getD []) { file } where
  shows := rfl
  locked := by simp [AppenderPc.holdsLock]
  idle _ := rfl
  newline := by simp
  line := by simp
  returned := by simp

/-! ### The migration's steps -/

/-- A migration step moves no call and writes no line. -/
theorem migrated (h : Consistent json banned lineOf initial text s)
    (happender : s'.appender = s.appender) (hlock : s'.lock = s.lock) (happended : s'.appended = s.appended)
    (hshows : Shows json banned text s'.contents s'.migration)
    (hnewline : (∃ i, s.appender i = .newline) → s'.contents = s.contents ∧ s'.migration.inSection = false) :
    Consistent json banned lineOf initial text s' where
  shows := hshows
  locked i hi := by
    rw [happender] at hi
    rw [hlock]
    exact h.locked i hi
  idle hidle := by
    rw [happender] at hidle
    rw [RulesFile.written, happended]
    exact h.idle hidle
  newline i hi := by
    rw [happender] at hi
    obtain ⟨htext, hline, hneeds, -⟩ := h.newline i hi
    obtain ⟨hcontents, hsection⟩ := hnewline ⟨i, hi⟩
    rw [RulesFile.written, happended, hcontents]
    exact ⟨htext, hline, hneeds, hsection⟩
  line i hi := by
    rw [happender] at hi
    rw [RulesFile.written, happended]
    exact h.line i hi
  returned := by
    rw [happended, happender]
    exact h.returned

theorem migrationStep (h : Consistent json banned lineOf initial text s) (hapart : Apart json banned s .migrate) :
    Consistent json banned lineOf initial text (migrationStep json banned s) := by
  have hshows := h.shows
  have hnoNewline : s.migration.inSection = true → ¬ ∃ i, s.appender i = .newline := by
    rintro hin ⟨i, hi⟩
    rw [(h.newline i hi).2.2.2] at hin
    cases hin
  unfold PolicyFile.migrationStep
  split
  · next hpc =>
    rw [hpc] at hshows
    split
    · next hfile =>
      have hnil : s.contents = [] := by simp [RulesFile.contents, hfile]
      refine h.migrated rfl rfl rfl ⟨hshows, ?_⟩ fun _ => ⟨rfl, rfl⟩
      rw [← show s.contents = text from hshows, hnil]
      rfl
    · next c hfile =>
      have hc : s.contents = c := by simp [RulesFile.contents, hfile]
      split
      · next heq =>
        refine h.migrated rfl rfl rfl ⟨hshows, ?_⟩ fun _ => ⟨rfl, rfl⟩
        rw [← show s.contents = text from hshows, hc, heq]
      · exact h.migrated rfl rfl rfl hshows fun _ => ⟨rfl, rfl⟩
  · next hpc =>
    rw [hpc] at hshows
    split
    · next hfile =>
      have hnil : s.contents = [] := by simp [RulesFile.contents, Option.isNone_iff_eq_none.1 hfile]
      refine h.migrated rfl rfl rfl ⟨hshows, ?_⟩ fun _ => ⟨rfl, rfl⟩
      rw [← show s.contents = text from hshows, hnil]
      rfl
    · exact h.migrated rfl rfl rfl hshows fun _ => ⟨rfl, rfl⟩
  · next hpc =>
    rw [hpc] at hshows
    have htext : s.contents = text := hshows
    dsimp only
    split
    · next heq =>
      refine h.migrated rfl rfl rfl ⟨hshows, ?_⟩ fun _ => ⟨rfl, rfl⟩
      rw [← htext, heq]
    · next hne =>
      refine h.migrated rfl rfl rfl ⟨hshows, by rw [htext]⟩ ?_
      rintro ⟨i, hi⟩
      exact absurd hi (hapart hpc hne i)
  · next r hpc =>
    rw [hpc] at hshows
    obtain ⟨htext, hr⟩ := hshows
    refine h.migrated rfl rfl rfl ⟨?_, hr⟩ fun hex => absurd hex (hnoNewline (by rw [hpc]; rfl))
    rw [← htext]
    rfl
  · next r hpc =>
    rw [hpc] at hshows
    obtain ⟨hcontents, hr⟩ := hshows
    refine h.migrated rfl rfl rfl ?_ fun hex => absurd hex (hnoNewline (by rw [hpc]; rfl))
    show s.contents.take r.length = _
    rw [hcontents, List.take_left, hr]
  · exact h
  · exact h

/-! ### The calls' steps -/

theorem alone (h : Consistent json banned lineOf initial text s) {j : Nat} (hi : (s.appender i).holdsLock = true)
    (hj : (s.appender j).holdsLock = true) : j = i := by
  have := (h.locked j hj).symm.trans (h.locked i hi)
  simpa using this

/-- A call moves without writing, outside the part between its read and its return. -/
theorem moved (h : Consistent json banned lineOf initial text s) (pc : AppenderPc)
    (hfrom : s.appender i ∈ [AppenderPc.ready, .opened, .locked]) (hto : pc ∈ [AppenderPc.opened, .locked, .failed])
    (happender : s'.appender = Function.update s.appender i pc) (hcontents : s'.contents = s.contents)
    (hmigration : s'.migration = s.migration) (happended : s'.appended = s.appended)
    (hlocked : ∀ j, (s'.appender j).holdsLock = true → s'.lock = some j) :
    Consistent json banned lineOf initial text s' := by
  have hat (j : Nat) (state : AppenderPc) (hstate : state ∉ [AppenderPc.ready, .opened, .locked, .failed]) :
      s'.appender j = state ↔ s.appender j = state := by
    rw [happender]
    by_cases hji : j = i
    · subst hji
      rw [Function.update_self]
      constructor
      · rintro rfl
        tauto
      · rintro rfl
        simp at hfrom hstate
        tauto
    · rw [Function.update_of_ne hji]
  have hwritten : s'.written initial = s.written initial := by rw [RulesFile.written, happended]; rfl
  refine ⟨?_, hlocked, ?_, ?_, ?_, ?_⟩
  · rw [hcontents, hmigration]
    exact h.shows
  · intro hidle
    rw [hwritten]
    refine h.idle fun j => ?_
    have hj := hidle j
    rwa [Ne, Ne, hat j .newline (by simp), hat j .line (by simp)] at hj
  · intro j hj
    rw [hat j .newline (by simp)] at hj
    rw [hwritten, hcontents, hmigration]
    exact h.newline j hj
  · intro j hj
    rw [hat j .line (by simp)] at hj
    rw [hwritten]
    exact h.line j hj
  · intro l
    rw [happended, h.returned]
    simp only [hat _ .returned (by simp)]

/-- The call that holds the lock goes on, the file and the text with it. -/
theorem advanced {text' : Text} {pc} (h : Consistent json banned lineOf initial text s)
    (hi : (s.appender i).holdsLock = true) (happender : s'.appender = Function.update s.appender i pc)
    (hlock : s'.lock = s.lock) (hmigration : s'.migration = s.migration) (happended : s'.appended = s.appended)
    (hshows : Shows json banned text' s'.contents s.migration)
    (hto : pc = .newline ∧ text' = s.written initial ∧ lineOf i ∉ lines text' ∧ needsNewline s'.contents = true ∧
        s.migration.inSection = false ∨
      pc = .line ∧ needsNewline text' ≠ true ∧ appendLine (s.written initial) (lineOf i) = text' ++ (lineOf i ++ ['\n'])) :
    Consistent json banned lineOf initial text' s' := by
  have hself : s'.appender i = pc := by rw [happender, Function.update_self]
  have hother (j : Nat) (hj : j ≠ i) : s'.appender j = s.appender j := by rw [happender, Function.update_of_ne hj]
  have halone (j : Nat) (hj : j ≠ i) : (s.appender j).holdsLock ≠ true := fun hlocked => hj (h.alone hi hlocked)
  have hwritten : s'.written initial = s.written initial := by rw [RulesFile.written, happended]; rfl
  have hpc : pc = .newline ∨ pc = .line := hto.imp And.left And.left
  refine ⟨hmigration ▸ hshows, ?_, ?_, ?_, ?_, ?_⟩
  · intro j hj
    rw [hlock]
    by_cases hji : j = i
    · rw [hji]
      exact h.locked i hi
    · rw [hother j hji] at hj
      exact h.locked j hj
  · intro hidle
    have := hidle i
    rw [hself] at this
    rcases hpc with rfl | rfl <;> simp at this
  · intro j hj
    have hji : j = i := by
      by_contra hji
      rw [hother j hji] at hj
      exact halone j hji (by rw [hj]; rfl)
    subst hji
    rw [hself] at hj
    rcases hto with ⟨-, hnewline⟩ | ⟨hline, -⟩
    · rw [hwritten, hmigration]
      exact hnewline
    · rw [hj] at hline
      cases hline
  · intro j hj
    have hji : j = i := by
      by_contra hji
      rw [hother j hji] at hj
      exact halone j hji (by rw [hj]; rfl)
    subst hji
    rw [hself] at hj
    rcases hto with ⟨hnewline, -⟩ | ⟨-, hline⟩
    · rw [hj] at hnewline
      cases hnewline
    · rw [hwritten]
      exact hline
  · intro l
    rw [happended, h.returned]
    apply exists_congr
    intro j
    by_cases hji : j = i
    · subst hji
      rw [hself]
      have hne : s.appender j ≠ .returned := by
        intro heq
        rw [heq] at hi
        cases hi
      rcases hpc with rfl | rfl <;> simp [hne]
    · rw [hother j hji]

theorem returnAppend {text' : Text} (h : Consistent json banned lineOf initial text s)
    (hi : (s.appender i).holdsLock = true) (happender : s'.appender = Function.update s.appender i .returned)
    (hmigration : s'.migration = s.migration) (happended : s'.appended = s.appended ++ [lineOf i])
    (hshows : Shows json banned text' s'.contents s.migration)
    (htext : text' = appendLine (s.written initial) (lineOf i)) : Consistent json banned lineOf initial text' s' := by
  have hself : s'.appender i = .returned := by rw [happender, Function.update_self]
  have hother (j : Nat) (hj : j ≠ i) : s'.appender j = s.appender j := by rw [happender, Function.update_of_ne hj]
  have hfree (j : Nat) : (s'.appender j).holdsLock ≠ true := by
    by_cases hji : j = i
    · rw [hji, hself]
      simp [AppenderPc.holdsLock]
    · rw [hother j hji]
      exact fun hlocked => hji (h.alone hi hlocked)
  refine ⟨hmigration ▸ hshows, ?_, ?_, ?_, ?_, ?_⟩
  · exact fun j hj => absurd hj (hfree j)
  · intro _
    rw [htext, RulesFile.written, RulesFile.written, happended, List.foldl_append]
    rfl
  · exact fun j hj => absurd (by rw [hj]; rfl) (hfree j)
  · exact fun j hj => absurd (by rw [hj]; rfl) (hfree j)
  · intro l
    rw [happended, List.mem_append, h.returned, List.mem_singleton]
    constructor
    · rintro (⟨j, hj, rfl⟩ | rfl)
      · refine ⟨j, ?_, rfl⟩
        rw [hother j ?_, hj]
        rintro rfl
        rw [hj] at hi
        cases hi
      · exact ⟨i, hself, rfl⟩
    · rintro ⟨j, hj, rfl⟩
      by_cases hji : j = i
      · exact .inr (by rw [hji])
      · exact .inl ⟨j, hother j hji ▸ hj, rfl⟩

/-- Before the call's decision the text is what has been written. -/
theorem text_of_locked (h : Consistent json banned lineOf initial text s) (hi : s.appender i = .locked) :
    text = s.written initial := by
  refine h.idle fun j => ⟨?_, ?_⟩ <;> intro hj <;>
  · have hji := h.alone (i := i) (by rw [hi]; rfl) (j := j) (by rw [hj]; rfl)
    rw [hji, hi] at hj
    cases hj

theorem appenderStep (h : Consistent json banned lineOf initial text s) (hlines : ∀ i, Appendable json banned (lineOf i))
    (i : Nat) (hapart : Apart json banned s (.append i)) :
    ∃ text', Consistent json banned lineOf initial text' (appenderStep lineOf s i) := by
  unfold PolicyFile.appenderStep
  split
  · next hpc =>
    refine ⟨text, h.moved .opened (by simp [hpc]) (by simp) rfl rfl rfl rfl ?_⟩
    intro j hj
    by_cases hji : j = i
    · simp [RulesFile.setAppender, hji, AppenderPc.holdsLock] at hj
    · simp only [RulesFile.setAppender, Function.update_of_ne hji] at hj
      exact h.locked j hj
  · next hpc =>
    split
    · next hfree =>
      refine ⟨text, h.moved .locked (by simp [hpc]) (by simp) rfl rfl rfl rfl ?_⟩
      intro j hj
      by_cases hji : j = i
      · rw [hji]
      · simp only [RulesFile.setAppender, Function.update_of_ne hji] at hj
        rw [h.locked j hj] at hfree
        cases hfree
    · exact ⟨text, h⟩
  · next hpc =>
    have hi : (s.appender i).holdsLock = true := by rw [hpc]; rfl
    have hout := hapart hi
    have htext := h.text_of_locked hpc
    have hmem := h.shows.mem_lines hout (hlines i)
    split
    · next hthere =>
      refine ⟨text, h.returnAppend hi rfl rfl rfl h.shows ?_⟩
      rw [← htext, appendLine_of_mem (hmem.1 hthere)]
    · next hthere =>
      rw [hmem] at hthere
      split
      · next hneeds => exact ⟨text, h.advanced hi rfl rfl rfl rfl h.shows (.inl ⟨rfl, htext, hthere, hneeds, hout⟩)⟩
      · next hneeds =>
        refine ⟨_, h.advanced hi rfl rfl rfl rfl (h.shows.end_line hout hneeds) (.inr ⟨rfl, needsNewline_ended text, ?_⟩)⟩
        rw [← htext, appendLine_of_not_mem hthere]
  · next hpc =>
    have hi : (s.appender i).holdsLock = true := by rw [hpc]; rfl
    obtain ⟨htext, hnot, hneeds, hout⟩ := h.newline i hpc
    have hended := h.shows.needsNewline_text hout hneeds
    refine ⟨text ++ ['\n'], h.advanced hi rfl rfl rfl rfl (h.shows.write_newline hout hneeds) (.inr ⟨rfl, ?_, ?_⟩)⟩
    · simp [needsNewline]
    · rw [← htext, appendLine_of_not_mem hnot, if_pos hended]
  · next hpc =>
    have hi : (s.appender i).holdsLock = true := by rw [hpc]; rfl
    obtain ⟨hended, happend⟩ := h.line i hpc
    exact ⟨_, h.returnAppend hi rfl rfl rfl (h.shows.write_line (hapart hi) hended (hlines i)) happend.symm⟩
  · exact ⟨text, h⟩
  · exact ⟨text, h⟩

theorem failStep (h : Consistent json banned lineOf initial text s) (i : Nat) :
    Consistent json banned lineOf initial text (failStep s i) := by
  have hother {j : Nat} (hj : ((s.setAppender i .failed).appender j).holdsLock = true) :
      j ≠ i ∧ (s.appender j).holdsLock = true := by
    by_cases hji : j = i
    · simp [RulesFile.setAppender, hji, AppenderPc.holdsLock] at hj
    · simp only [RulesFile.setAppender, Function.update_of_ne hji] at hj
      exact ⟨hji, hj⟩
  unfold PolicyFile.failStep
  split
  · next hpc => exact h.moved .failed (by simp [hpc]) (by simp) rfl rfl rfl rfl fun j hj => h.locked j (hother hj).2
  · next hpc => exact h.moved .failed (by simp [hpc]) (by simp) rfl rfl rfl rfl fun j hj => h.locked j (hother hj).2
  · next hpc =>
    refine h.moved .failed (by simp [hpc]) (by simp) rfl rfl rfl rfl fun j hj => ?_
    obtain ⟨hji, hlocked⟩ := hother hj
    exact absurd (h.alone (by rw [hpc]; rfl) hlocked) hji
  · exact h

theorem step (h : Consistent json banned lineOf initial text s) (hlines : ∀ i, Appendable json banned (lineOf i))
    {action} (hapart : Apart json banned s action) :
    ∃ text', Consistent json banned lineOf initial text' (step json banned lineOf s action) := by
  cases action with
  | migrate => exact ⟨text, h.migrationStep hapart⟩
  | append i => exact h.appenderStep hlines i hapart
  | fail i => exact ⟨text, h.failStep i⟩

/-- The invariant holds along every run whose steps keep apart. -/
theorem run (h : Consistent json banned lineOf initial text s) (hlines : ∀ i, Appendable json banned (lineOf i))
    (hapart : ApartRun json banned lineOf s actions) :
    ∃ text', Consistent json banned lineOf initial text' (run json banned lineOf s actions) := by
  induction actions generalizing s text with
  | nil => exact ⟨text, h⟩
  | cons action actions ih =>
    obtain ⟨text', h'⟩ := h.step hlines hapart.1
    exact ih h' hapart.2

end Consistent

/-! ## The migrated file -/

section
variable (json : JsonCodec) (banned : List (List Text)) (lineOf : Nat → Text)

/-- What the file of a migration and some appends should hold once they have returned: the lines
that were there or that returned calls appended, in order and unchanged, less those to remove. -/
structure Migrated (initial : Text) (s : RulesFile) : Prop where
  contents : s.contents =
    ((splitInclusive (s.written initial)).filter fun line => !shouldRemoveRule json banned line).flatten
  appended : ∀ line, line ∈ s.appended ↔ ∃ i, s.appender i = .returned ∧ lineOf i = line

/-- The migration has returned and no call is between its read and its last write. -/
structure Settled (s : RulesFile) : Prop where
  migration : s.migration = .unchanged ∨ s.migration = .cleaned
  appender : ∀ i, s.appender i ≠ .newline ∧ s.appender i ≠ .line

end

section
variable {json : JsonCodec} {banned : List (List Text)} {lineOf : Nat → Text}

theorem Consistent.settled {initial text : Text} {s} (h : Consistent json banned lineOf initial text s)
    (hs : Settled s) : Migrated json banned lineOf initial s := by
  have htext := h.idle hs.appender
  have hcontents : s.contents = stripBannedAllowRules json banned text := by
    have hshows := h.shows
    rcases hs.migration with hpc | hpc
    · rw [hpc] at hshows
      exact hshows.1.trans hshows.2.symm
    · rw [hpc] at hshows
      exact hshows
  exact ⟨by rw [hcontents, htext]; rfl, h.returned⟩

/-- **The migration removes exactly the banned rules**, in every run whose appends keep out of its
read-to-truncate section. -/
theorem cleanRulesFile_migrated {file : Option Text} {actions : List Action}
    (hlines : ∀ i, Appendable json banned (lineOf i)) (hapart : ApartRun json banned lineOf { file } actions)
    (hsettled : Settled (run json banned lineOf { file } actions)) :
    Migrated json banned lineOf (file.getD []) (run json banned lineOf { file } actions) ∧
    (∀ line, '\n' ∉ line → (shouldRemoveRule json banned (line ++ ['\n']) = true ↔ BannedRule json banned line) ∧
      (shouldRemoveRule json banned line = true ↔ BannedRule json banned line)) ∧
    (∀ tokens, ∀ ban ∈ banned, lowercase tokens = lowercase ban →
      json.fromStr ("[".toList ++ commaJoin (tokens.map json.toString) ++ "]".toList) = some tokens →
      BannedRule json banned (allowPrefixRule json tokens)) := by
  refine ⟨?_, fun line h => shouldRemoveRule_iff h, fun tokens ban hban hcase => bannedRule_allowPrefixRule hban hcase⟩
  obtain ⟨text, h⟩ := (Consistent.initially file).run hlines hapart
  exact h.settled hsettled

/-- A call moves by its own steps only. -/
theorem run_appender_of_not_mem {s} (happend : .append i ∉ actions)
    (hfail : .fail i ∉ actions) : (run json banned lineOf s actions).appender i = s.appender i := by
  induction actions generalizing s with
  | nil => rfl
  | cons action actions ih =>
    simp only [List.mem_cons, not_or] at happend hfail
    refine (ih happend.2 hfail.2).trans ?_
    cases action with
    | migrate =>
      simp only [step, migrationStep]
      split <;> try split
      all_goals first | rfl | (split <;> rfl)
    | append j =>
      have hij : i ≠ j := fun h => happend.1 (h ▸ rfl)
      simp only [step, appenderStep]
      split
      all_goals try split
      all_goals try split
      all_goals simp [returnAppend, RulesFile.setAppender, Function.update_of_ne hij]
    | fail j =>
      have hij : i ≠ j := fun h => hfail.1 (h ▸ rfl)
      simp only [step, failStep]
      split
      all_goals simp [RulesFile.setAppender, Function.update_of_ne hij]

end

/-! ## A lost line -/

/-- `serde_json` on the two arrays of the examples below. -/
def sampleCodec : JsonCodec where
  fromStr s := if s = "[\"git\"]".toList then some ["git".toList] else if s = "[\"ls\"]".toList then some ["ls".toList] else none
  toString token := "\"".toList ++ token ++ "\"".toList

def sampleBanned : List (List Text) := [["GIT".toList]]

def sampleLine : Text := allowPrefixRule sampleCodec ["ls".toList]

def sampleFile : Text := allowPrefixRule sampleCodec ["git".toList] ++ ['\n']

theorem sampleLine_appendable : Appendable sampleCodec sampleBanned sampleLine where
  oneLine := by decide
  notBanned := by
    rw [← isBannedRule_stripCr_iff]
    decide

def sampleRun : List Action → RulesFile := run sampleCodec sampleBanned (fun _ => sampleLine) { file := some sampleFile }

/-- A run of the migration and one call that has returned is settled. -/
theorem sampleRun_settled (hactions : ∀ action ∈ actions, action ∈ [Action.migrate, .append 0])
    (hcleaned : (sampleRun actions).migration = .cleaned) (hreturned : (sampleRun actions).appender 0 = .returned) :
    Settled (sampleRun actions) := by
  refine ⟨.inr hcleaned, fun i => ?_⟩
  by_cases hi : i = 0
  · rw [hi, hreturned]
    decide
  · have hready : (sampleRun actions).appender i = .ready :=
      run_appender_of_not_mem (fun hmem => by simpa [hi] using hactions _ hmem) fun hmem => by simpa using hactions _ hmem
    rw [hready]
    decide

/-- The call takes the lock after the migration's first read and writes before its second. -/
theorem cleanRulesFile_migrated_sample :
    let actions := [Action.migrate, .append 0, .append 0, .append 0, .migrate, .append 0, .migrate, .migrate, .migrate]
    (sampleRun actions).contents = sampleLine ++ ['\n'] ∧
      Migrated sampleCodec sampleBanned (fun _ => sampleLine) sampleFile (sampleRun actions) := by
  intro actions
  have hsettled : Settled (sampleRun actions) :=
    sampleRun_settled (by decide) (by decide +kernel) (by decide +kernel)
  refine ⟨by decide +kernel, (cleanRulesFile_migrated (fun _ => sampleLine_appendable) ?_ hsettled).1⟩
  have hwait {s : RulesFile} (h : s.migration ≠ .opened) : Apart sampleCodec sampleBanned s .migrate := fun heq => absurd heq h
  refine ⟨hwait (by decide +kernel), fun _ => by decide +kernel, fun _ => by decide +kernel, fun _ => by decide +kernel,
    hwait (by decide +kernel), fun _ => by decide +kernel, fun _ _ i => ?_, hwait (by decide +kernel),
    hwait (by decide +kernel), trivial⟩
  by_cases hi : i = 0
  · rw [hi]
    decide +kernel
  · change (sampleRun (actions.take 6)).appender i ≠ .newline
    rw [sampleRun, run_appender_of_not_mem (by simp [actions, hi]) (by simp [actions])]
    exact nofun

/-- **A line lost.** The call locks, reads and writes between the migration's read and its rewrite. -/
theorem cleanRulesFile_loses :
    let actions := [Action.migrate, .migrate, .migrate, .append 0, .append 0, .append 0, .append 0, .migrate, .migrate]
    Appendable sampleCodec sampleBanned sampleLine ∧ Settled (sampleRun actions) ∧
      (sampleRun actions).appender 0 = .returned ∧ (sampleRun actions).contents = [] ∧
      ¬ Migrated sampleCodec sampleBanned (fun _ => sampleLine) sampleFile (sampleRun actions) := by
  intro actions
  have hempty : (sampleRun actions).contents = [] := by decide +kernel
  refine ⟨sampleLine_appendable, sampleRun_settled (by decide) (by decide +kernel) (by decide +kernel), by decide +kernel,
    hempty, fun h => ?_⟩
  have hcontents := h.contents
  revert hcontents
  decide +kernel

end Codex.PolicyFile
