/-
The exec policy (`execpolicy/src/decision.rs`, `rule.rs`, `policy.rs`,
`executable_name.rs`, and `utils/absolute-path` for the paths it compares).

A policy maps a program to the prefix rules filed under it. A command is
matched in two stages. Its first token picks the exact rules; only where none
of these matches, and only with host-executable resolution on, is the token
read as a path and the rules of its basename are tried. A `host_executable`
entry of that basename restricts this second stage to the paths it lists.

What differs between platforms is a `Host`: whether the build is for Windows,
and how `AbsolutePathBuf::try_from` reads a token. `unixHost` is the code for
unix; on Windows the reading is left open, and nothing below depends on it.
-/
import Codex.Text
import Codex.Lib.MultiMap
import Mathlib.Order.MinMax

namespace Codex.ExecPolicy

open Text

/-! ## Decisions -/

inductive Decision where
  | allow
  | prompt
  | forbidden
  deriving DecidableEq, Repr

namespace Decision

def rank : Decision → Nat
  | allow => 0
  | prompt => 1
  | forbidden => 2

theorem rank_injective : Function.Injective rank := by
  intro a b h
  cases a <;> cases b <;> first | rfl | cases h

/-- The derived order: each decision is stricter than those before it. -/
instance : LinearOrder Decision := LinearOrder.lift' rank rank_injective

instance : Std.LawfulOrderMax Decision := .of_max_le_iff (fun _ _ _ => max_le_iff) (fun a b => max_choice a b)

theorem le_allow_iff {d} : d ≤ allow ↔ d = allow := by cases d <;> decide

end Decision

/-! ## Paths -/

/-- An absolute, normalized path: its volume (empty on unix) and its components. -/
structure AbsolutePath where
  volume : Text
  components : List Text
  deriving DecidableEq, Repr

def AbsolutePath.fileName (path : AbsolutePath) : Option Text := path.components.getLast?

structure Host where
  windows : Bool
  absolutePath : Text → Option AbsolutePath

def isAbsolute (path : Text) : Bool := path.head? == some '/'

/-- `PathBuf::join` on unix. -/
def joinPath (base path : Text) : Text :=
  if isAbsolute path then path
  else if base = [] ∨ base.getLast? = some '/' then base ++ path
  else base ++ '/' :: path

def maybeExpandHomeDirectory (homeDir : Option Text) (path : Text) : Text :=
  match homeDir, stripStart ['~'] path with
  | some home, some [] => home
  | some home, some rest =>
    match stripStart ['/'] rest with
    | some rest => joinPath home (rest.dropWhile (· == '/'))
    | none => path
  | _, _ => path

/-- `normalize_path` of an absolute unix path. `components` yields no empty component, and
`..` at the root stays there. -/
def normalizePath (path : Text) : AbsolutePath where
  volume := []
  components := (path.splitOn '/').foldl (fun normalized component =>
    if component = [] ∨ component = ['.'] then normalized
    else if component = ['.', '.'] then normalized.dropLast
    else normalized ++ [component]) []

/-- `AbsolutePathBuf::from_absolute_path` on unix, by the home directory and the current one. -/
def fromAbsolutePath (homeDir currentDir : Option Text) (path : Text) : Option AbsolutePath :=
  let expanded := maybeExpandHomeDirectory homeDir path
  if isAbsolute expanded then some (normalizePath expanded)
  else currentDir.map fun cwd => normalizePath (joinPath cwd expanded)

def unixHost (homeDir currentDir : Option Text) : Host where
  windows := false
  absolutePath := fromAbsolutePath homeDir currentDir

def windowsExecutableSuffixes : List Text := [".exe".toList, ".cmd".toList, ".bat".toList, ".com".toList]

def executableLookupKey (windows : Bool) (raw : Text) : Text :=
  if windows then
    let raw := raw.map Char.toLower
    match windowsExecutableSuffixes.find? (endsWith raw ·) with
    | some suffix => raw.take (raw.length - suffix.length)
    | none => raw
  else raw

def executablePathLookupKey (host : Host) (path : AbsolutePath) : Option Text :=
  path.fileName.map (executableLookupKey host.windows)

/-! ## Rules -/

inductive PatternToken where
  | single (expected : Text)
  | alts (alternatives : List Text)
  deriving DecidableEq, Repr

def PatternToken.matchesToken : PatternToken → Text → Bool
  | .single expected, token => expected == token
  | .alts alternatives, token => alternatives.any (· == token)

structure PrefixPattern where
  first : Text
  rest : List PatternToken
  deriving DecidableEq, Repr

def PrefixPattern.matchesPrefix (pattern : PrefixPattern) (cmd : List Text) : Option (List Text) :=
  let patternLength := pattern.rest.length + 1
  if cmd.length < patternLength ∨ cmd.head? ≠ some pattern.first then none
  else if (pattern.rest.zip (cmd.tail.take pattern.rest.length)).all fun t => t.1.matchesToken t.2 then
    some (cmd.take patternLength)
  else none

inductive RuleMatch where
  | prefixRuleMatch (matchedPrefix : List Text) (decision : Decision) (resolvedProgram : Option AbsolutePath)
      (justification : Option Text)
  | heuristicsRuleMatch (command : List Text) (decision : Decision)
  deriving DecidableEq, Repr

namespace RuleMatch

def decision : RuleMatch → Decision
  | prefixRuleMatch _ decision _ _ => decision
  | heuristicsRuleMatch _ decision => decision

def withResolvedProgram (resolvedProgram : AbsolutePath) : RuleMatch → RuleMatch
  | prefixRuleMatch matchedPrefix decision _ justification =>
    prefixRuleMatch matchedPrefix decision (some resolvedProgram) justification
  | other => other

end RuleMatch

structure PrefixRule where
  pattern : PrefixPattern
  decision : Decision
  justification : Option Text
  deriving DecidableEq, Repr

def PrefixRule.matchesCommand (rule : PrefixRule) (cmd : List Text) : Option RuleMatch :=
  (rule.pattern.matchesPrefix cmd).map fun matchedPrefix =>
    .prefixRuleMatch matchedPrefix rule.decision none rule.justification

inductive NetworkRuleProtocol where
  | http
  | https
  | socks5Tcp
  | socks5Udp
  deriving DecidableEq, Repr

structure NetworkRule where
  host : Text
  protocol : NetworkRuleProtocol
  decision : Decision
  justification : Option Text
  deriving DecidableEq, Repr

/-! ## Policies -/

structure MatchOptions where
  resolveHostExecutables : Bool := false
  deriving DecidableEq, Repr

structure Policy where
  rulesByProgram : MultiMap Text PrefixRule
  networkRules : List NetworkRule
  hostExecutablesByName : AList fun _ : Text => List AbsolutePath

structure Evaluation where
  decision : Decision
  matchedRules : List RuleMatch
  deriving DecidableEq, Repr

/-- `Evaluation::from_matches`; none is its panic on an empty list. -/
def Evaluation.fromMatches (matchedRules : List RuleMatch) : Option Evaluation :=
  (matchedRules.map RuleMatch.decision).max?.map fun decision => { decision, matchedRules }

def prefixCannotBeEmpty : String := "prefix cannot be empty"

namespace Policy

def empty : Policy := { rulesByProgram := .empty, networkRules := [], hostExecutablesByName := ∅ }

/-- `add_prefix_rule`, with the text of its `Error::InvalidPattern`. -/
def addPrefixRule (policy : Policy) (tokens : List Text) (decision : Decision) : Except String Policy :=
  match tokens with
  | [] => .error prefixCannotBeEmpty
  | first :: rest =>
    .ok { policy with
      rulesByProgram := policy.rulesByProgram.insert first
        { pattern := { first, rest := rest.map .single }, decision, justification := none } }

def setHostExecutablePaths (policy : Policy) (name : Text) (paths : List AbsolutePath) : Policy :=
  { policy with hostExecutablesByName := policy.hostExecutablesByName.insert name paths }

def mergeOverlay (policy overlay : Policy) : Policy where
  rulesByProgram := policy.rulesByProgram.extendAll overlay.rulesByProgram
  networkRules := policy.networkRules ++ overlay.networkRules
  hostExecutablesByName := overlay.hostExecutablesByName ∪ policy.hostExecutablesByName

def matchExactRules (policy : Policy) (cmd : List Text) : Option (List RuleMatch) :=
  cmd.head?.map fun first =>
    ((policy.rulesByProgram.getVec first).map fun rules => rules.filterMap (·.matchesCommand cmd)).getD []

def matchHostExecutableRules (host : Host) (policy : Policy) (cmd : List Text) : List RuleMatch :=
  match cmd with
  | [] => []
  | first :: args =>
    match host.absolutePath first with
    | none => []
    | some program =>
      match executablePathLookupKey host program with
      | none => []
      | some basename =>
        match policy.rulesByProgram.getVec basename with
        | none => []
        | some rules =>
          if (policy.hostExecutablesByName.lookup basename).any fun paths => !paths.any (· == program) then []
          else (rules.filterMap (·.matchesCommand (basename :: args))).map (·.withResolvedProgram program)

/-- The local `matched_rules` of `matches_for_command_with_options`. -/
def matchedRules (host : Host) (policy : Policy) (cmd : List Text) (options : MatchOptions) : List RuleMatch :=
  (((policy.matchExactRules cmd).filter (!·.isEmpty)).orElse fun _ =>
    (if options.resolveHostExecutables then some (policy.matchHostExecutableRules host cmd) else none).filter
      (!·.isEmpty)).getD []

def matchesForCommandWithOptions (host : Host) (policy : Policy) (cmd : List Text)
    (heuristicsFallback : Option (List Text → Decision)) (options : MatchOptions) : List RuleMatch :=
  match policy.matchedRules host cmd options, heuristicsFallback with
  | [], some fallback => [.heuristicsRuleMatch cmd (fallback cmd)]
  | matched, _ => matched

def checkWithOptions (host : Host) (policy : Policy) (cmd : List Text) (heuristicsFallback : List Text → Decision)
    (options : MatchOptions) : Option Evaluation :=
  Evaluation.fromMatches (policy.matchesForCommandWithOptions host cmd (some heuristicsFallback) options)

def checkMultipleWithOptions (host : Host) (policy : Policy) (commands : List (List Text))
    (heuristicsFallback : List Text → Decision) (options : MatchOptions) : Option Evaluation :=
  Evaluation.fromMatches (commands.flatMap fun command =>
    policy.matchesForCommandWithOptions host command (some heuristicsFallback) options)

/-! ## The rules that apply to a command -/

/-- The rules filed under the command's first token that match it. -/
def exactRules (policy : Policy) (cmd : List Text) : List PrefixRule :=
  (cmd.head?.map policy.rulesByProgram.vals).getD [] |>.filter fun rule => (rule.matchesCommand cmd).isSome

/-- What host-executable resolution reads the command's first token as: a path, and its basename. -/
def resolvedProgram (host : Host) (cmd : List Text) : Option (AbsolutePath × Text) := do
  let program ← host.absolutePath (← cmd.head?)
  return (program, ← executablePathLookupKey host program)

/-- The policy's `host_executable` entry for the name, where there is one, lists the path. -/
def ListsProgram (policy : Policy) (program : AbsolutePath) (basename : Text) : Prop :=
  ∀ paths, policy.hostExecutablesByName.lookup basename = some paths → program ∈ paths

instance (policy : Policy) (program : AbsolutePath) (basename : Text) :
    Decidable (policy.ListsProgram program basename) :=
  match h : policy.hostExecutablesByName.lookup basename with
  | none => isTrue fun _ hp => by rw [h] at hp; cases hp
  | some paths => decidable_of_iff (program ∈ paths) (by simp [ListsProgram, h])

/-- The rules of the basename that match the command with its first token so shortened. -/
def hostRules (host : Host) (policy : Policy) (cmd : List Text) : List PrefixRule :=
  match resolvedProgram host cmd with
  | none => []
  | some (program, basename) =>
    if policy.ListsProgram program basename then
      (policy.rulesByProgram.vals basename).filter fun rule => (rule.matchesCommand (basename :: cmd.tail)).isSome
    else []

/-- The rules that match a command when host-executable resolution is on. -/
def applicableRules (host : Host) (policy : Policy) (cmd : List Text) : List PrefixRule :=
  if policy.exactRules cmd = [] then policy.hostRules host cmd else policy.exactRules cmd

theorem decision_of_matchesCommand {rule : PrefixRule} {cmd : List Text} {m : RuleMatch}
    (h : rule.matchesCommand cmd = some m) : m.decision = rule.decision := by
  obtain ⟨matchedPrefix, -, rfl⟩ := Option.map_eq_some_iff.1 h
  rfl

theorem decision_withResolvedProgram (program : AbsolutePath) (m : RuleMatch) :
    (m.withResolvedProgram program).decision = m.decision := by
  cases m <;> rfl

theorem decisions_filterMap (rules : List PrefixRule) (cmd : List Text) :
    (rules.filterMap (·.matchesCommand cmd)).map RuleMatch.decision =
      (rules.filter fun rule => (rule.matchesCommand cmd).isSome).map PrefixRule.decision := by
  induction rules with
  | nil => rfl
  | cons rule rules ih =>
    rw [List.filterMap_cons, List.filter_cons]
    cases hm : rule.matchesCommand cmd with
    | none => simpa using ih
    | some m => simpa [decision_of_matchesCommand hm] using ih

theorem decisions_exact (policy : Policy) (cmd : List Text) :
    ((policy.matchExactRules cmd).getD []).map RuleMatch.decision = (policy.exactRules cmd).map PrefixRule.decision := by
  cases cmd with
  | nil => rfl
  | cons first args =>
    rw [exactRules, ← decisions_filterMap]
    simp only [matchExactRules, List.head?_cons, Option.map_some, Option.getD_some, MultiMap.vals]
    cases policy.rulesByProgram.getVec first <;> rfl

theorem lists_iff (policy : Policy) (program : AbsolutePath) (basename : Text) :
    policy.ListsProgram program basename ↔
      ((policy.hostExecutablesByName.lookup basename).any fun paths => !paths.any (· == program)) = false := by
  rw [ListsProgram]
  cases policy.hostExecutablesByName.lookup basename with
  | none => simp
  | some paths => simp

theorem decisions_host (host : Host) (policy : Policy) (cmd : List Text) :
    (policy.matchHostExecutableRules host cmd).map RuleMatch.decision =
      (policy.hostRules host cmd).map PrefixRule.decision := by
  cases cmd with
  | nil => rfl
  | cons first args =>
    simp only [matchHostExecutableRules, hostRules, resolvedProgram, List.head?_cons, Option.bind_eq_bind,
      Option.bind_some, List.tail_cons]
    cases host.absolutePath first with
    | none => rfl
    | some program =>
      simp only [Option.bind_some]
      cases executablePathLookupKey host program with
      | none => rfl
      | some basename =>
        simp only [Option.bind_some, Option.pure_def, MultiMap.vals, lists_iff]
        cases policy.rulesByProgram.getVec basename with
        | none => simp
        | some rules =>
          cases (policy.hostExecutablesByName.lookup basename).any fun paths => !paths.any (· == program)
          · simp only [Bool.false_eq_true, if_false, if_true, Option.getD_some, List.map_map, ← decisions_filterMap]
            exact List.map_congr_left fun m _ => decision_withResolvedProgram program m
          · rfl

def resolving : MatchOptions := { resolveHostExecutables := true }

theorem matches_none (host : Host) (policy : Policy) (cmd : List Text) (options : MatchOptions) :
    policy.matchesForCommandWithOptions host cmd none options = policy.matchedRules host cmd options := by
  simp [matchesForCommandWithOptions]

theorem decisions_matches (host : Host) (policy : Policy) (cmd : List Text) :
    (policy.matchesForCommandWithOptions host cmd none resolving).map RuleMatch.decision =
      (policy.applicableRules host cmd).map PrefixRule.decision := by
  rw [matches_none]
  have he := decisions_exact policy cmd
  have hh := decisions_host host policy cmd
  rw [applicableRules]
  split
  next hnil =>
    rw [hnil, List.map_nil, List.map_eq_nil_iff] at he
    have hf : (policy.matchExactRules cmd).filter (!·.isEmpty) = none := by
      cases hm : policy.matchExactRules cmd with
      | none => rfl
      | some matched =>
        rw [hm, Option.getD_some] at he
        subst he
        rfl
    rw [← hh]
    simp only [matchedRules, hf, resolving]
    cases policy.matchHostExecutableRules host cmd <;> rfl
  next hne =>
    cases hm : policy.matchExactRules cmd with
    | none =>
      rw [hm, Option.getD_none, List.map_nil] at he
      exact absurd (List.map_eq_nil_iff.1 he.symm) hne
    | some matched =>
      rw [hm, Option.getD_some] at he
      cases matched with
      | nil => exact absurd (List.map_eq_nil_iff.1 he.symm) hne
      | cons m ms =>
        rw [← he]
        simp [matchedRules, hm, Option.filter]

theorem matches_eq_nil_iff (host : Host) (policy : Policy) (cmd : List Text) :
    policy.matchesForCommandWithOptions host cmd none resolving = [] ↔ policy.applicableRules host cmd = [] := by
  rw [← @List.map_eq_nil_iff _ _ RuleMatch.decision, decisions_matches, List.map_eq_nil_iff]

theorem matches_fallback (host : Host) (policy : Policy) (cmd : List Text) (fallback : List Text → Decision) :
    policy.matchesForCommandWithOptions host cmd (some fallback) resolving =
      if policy.applicableRules host cmd = [] then [.heuristicsRuleMatch cmd (fallback cmd)]
      else policy.matchesForCommandWithOptions host cmd none resolving := by
  have hnil := matches_eq_nil_iff host policy cmd
  rw [matches_none] at hnil ⊢
  by_cases h : policy.applicableRules host cmd = []
  · simp [matchesForCommandWithOptions, hnil.2 h, h]
  · rw [if_neg h]
    simp [matchesForCommandWithOptions, mt hnil.1 h]

end Policy

end Codex.ExecPolicy
