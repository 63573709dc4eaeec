/-
Which commands are run without asking, by their words alone
(`shell-command/src/command_safety/is_safe_command.rs`, `is_dangerous_command.rs`).

Each tool has a list of options that are not safe, and tests of its own for how an argument
may spell them. `spelled_iff` says, for every argument, what spells a listed option: the
argument is `flagged` by the code's test, or it is one of the spellings the test does not
look for (`Overlooked`). Which short options take no value is the tool's convention
(`Getopt`).
-/
import Codex.Text
import Mathlib.Data.List.Infix

namespace Codex.CommandSafety

open Text

inductive TargetOs
  | linux
  | windows
  | other
  deriving DecidableEq

/-- The target of the build. -/
structure Host where
  os : TargetOs
  /-- `Path::file_name` on Windows -/
  windowsFileName : Text → Option Text

/-- `Path::file_name` elsewhere. -/
def fileName (raw : Text) : Option Text :=
  match ((raw.splitOn '/').filter fun part => part ≠ [] ∧ part ≠ ['.']).getLast? with
  | some part => if part = "..".toList then none else some part
  | none => none

variable (host : Host)

def executableNameLookupKey (raw : Text) : Option Text :=
  if host.os = .windows then (host.windowsFileName raw).map fun name =>
    let name := name.map Char.toLower
    ([".exe", ".cmd", ".bat", ".com"].findSome? fun suf =>
      if endsWith name suf.toList then some (name.take (name.length - suf.length)) else none).getD name
  else fileName raw

/-! ## Git -/

def isGitGlobalOptionWithValue (arg : Text) : Bool :=
  (["-C", "-c", "--config-env", "--exec-path", "--git-dir", "--namespace", "--super-prefix", "--work-tree"].map
    String.toList).contains arg

def isGitGlobalOptionWithInlineValue (arg : Text) : Bool :=
  (["--config-env=", "--exec-path=", "--git-dir=", "--namespace=", "--super-prefix=", "--work-tree="].any
    fun option => startsWith arg option.toList) ||
  ((startsWith arg "-C".toList || startsWith arg "-c".toList) && 2 < arg.length)

/-- The loop of `find_git_subcommand`, from one index on. -/
def scanGitSubcommand (subcommands : List Text) (idx : Nat) (skipNext : Bool) : List Text → Option (Nat × Text)
  | [] => none
  | arg :: args =>
    if skipNext then scanGitSubcommand subcommands (idx + 1) false args
    else if isGitGlobalOptionWithInlineValue arg then scanGitSubcommand subcommands (idx + 1) false args
    else if isGitGlobalOptionWithValue arg then scanGitSubcommand subcommands (idx + 1) true args
    else if arg = "--".toList || startsWith arg "-".toList then scanGitSubcommand subcommands (idx + 1) false args
    else if subcommands.contains arg then some (idx, arg)
    else none

def findGitSubcommand (command subcommands : List Text) : Option (Nat × Text) :=
  match command with
  | [] => none
  | cmd0 :: args =>
    if executableNameLookupKey host cmd0 ≠ some "git".toList then none
    else scanGitSubcommand subcommands 1 false args

inductive GitOptionPattern
  | exact (option : Text)
  | shortWithInlineValue (option : Text)
  | leading (text : Text)
  deriving DecidableEq

/-- `GitOptionPattern::matches` -/
def GitOptionPattern.matchesArg (arg : Text) : GitOptionPattern → Bool
  | .exact option => arg = option
  | .shortWithInlineValue option => startsWith arg option && option.length < arg.length
  | .leading text => startsWith arg text

def gitMatchesOptionPattern (arg : Text) (patterns : List GitOptionPattern) : Bool :=
  patterns.any (·.matchesArg arg)

def unsafeGitGlobalOptions : List GitOptionPattern := [
  .exact "-C".toList, .shortWithInlineValue "-C".toList, .exact "-c".toList, .shortWithInlineValue "-c".toList,
  .exact "-p".toList, .exact "--config-env".toList, .leading "--config-env=".toList, .exact "--exec-path".toList,
  .leading "--exec-path=".toList, .exact "--git-dir".toList, .leading "--git-dir=".toList,
  .exact "--namespace".toList, .leading "--namespace=".toList, .exact "--paginate".toList,
  .exact "--super-prefix".toList, .leading "--super-prefix=".toList, .exact "--work-tree".toList,
  .leading "--work-tree=".toList]

def unsafeGitSubcommandOptions : List GitOptionPattern := [
  .exact "--output".toList, .leading "--output=".toList, .exact "--ext-diff".toList, .exact "--textconv".toList,
  .exact "--exec".toList, .leading "--exec=".toList]

def gitHasUnsafeGlobalOption (globalArgs : List Text) : Bool :=
  globalArgs.any fun arg => gitMatchesOptionPattern arg unsafeGitGlobalOptions

def gitSubcommandArgsAreReadOnly (args : List Text) : Bool :=
  !args.any fun arg => gitMatchesOptionPattern arg unsafeGitSubcommandOptions

/-- A flag of `git branch` that only reads. -/
def isReadOnlyBranchFlag (arg : Text) : Bool :=
  (["--list", "-l", "--show-current", "-a", "--all", "-r", "--remotes", "-v", "-vv", "--verbose"].map
    String.toList).contains arg || startsWith arg "--format=".toList

def gitBranchIsReadOnly (branchArgs : List Text) : Bool := branchArgs.all isReadOnlyBranchFlag

def gitSubcommands : List Text := ["status", "log", "diff", "show", "branch"].map String.toList

def isSafeGitCommand (command : List Text) : Bool :=
  match findGitSubcommand host command gitSubcommands with
  | none => false
  | some (subcommandIdx, subcommand) =>
    let globalArgs := (command.take subcommandIdx).drop 1
    let subcommandArgs := command.drop (subcommandIdx + 1)
    if gitHasUnsafeGlobalOption globalArgs then false
    else if (["status", "log", "diff", "show"].map String.toList).contains subcommand then
      gitSubcommandArgsAreReadOnly subcommandArgs
    else if subcommand = "branch".toList then
      gitSubcommandArgsAreReadOnly subcommandArgs && gitBranchIsReadOnly subcommandArgs
    else false

/-! ## The other tools -/

def unsafeBase64Options : List Text := ["-o".toList, "--output".toList]

def unsafeFindOptions : List Text :=
  ["-exec", "-execdir", "-ok", "-okdir", "-delete", "-fls", "-fprint", "-fprint0", "-fprintf"].map String.toList

def unsafeRipgrepOptionsWithArgs : List Text := ["--pre".toList, "--hostname-bin".toList]

def unsafeRipgrepOptionsWithoutArgs : List Text := ["--search-zip".toList, "-z".toList]

/-- The test of an argument of `base64`. -/
def base64Flagged (arg : Text) : Bool :=
  unsafeBase64Options.contains arg || startsWith arg "--output=".toList ||
    (startsWith arg "-o".toList && arg ≠ "-o".toList)

/-- The test of a word of `rg`. -/
def ripgrepFlagged (arg : Text) : Bool :=
  unsafeRipgrepOptionsWithoutArgs.contains arg ||
    unsafeRipgrepOptionsWithArgs.any fun option => arg = option || startsWith arg (option ++ ['='])

def isValidSedNArg (arg : Option Text) : Bool :=
  match arg with
  | none => false
  | some s =>
    if s.getLast? = some 'p' then
      match s.dropLast.splitOn ',' with
      | [num] => !num.isEmpty && num.all Char.isDigit
      | [a, b] => !a.isEmpty && !b.isEmpty && a.all Char.isDigit && b.all Char.isDigit
      | _ => false
    else false

def isSafeToCallWithExec (command : List Text) : Bool :=
  match command.head?.bind (executableNameLookupKey host) with
  | none => false
  | some cmd =>
    if host.os = .linux && (["numfmt", "tac"].map String.toList).contains cmd then true
    else if (["cat", "cd", "cut", "echo", "expr", "false", "grep", "head", "id", "ls", "nl", "paste", "pwd", "rev", "seq",
        "stat", "tail", "tr", "true", "uname", "uniq", "wc", "which", "whoami"].map String.toList).contains cmd then true
    else if cmd = "base64".toList then !(command.drop 1).any base64Flagged
    else if cmd = "find".toList then !command.any unsafeFindOptions.contains
    else if cmd = "rg".toList then !command.any ripgrepFlagged
    else if cmd = "git".toList then isSafeGitCommand host command
    else cmd = "sed".toList && (command.length ≤ 4 && command[1]? = some "-n".toList && isValidSedNArg command[2]?)

/-! ## Spellings -/

/-- Which short options take no value. -/
structure Getopt where
  isFlag : Char → Bool
  dash : isFlag '-' = false

variable (getopt : Getopt)

/-- The short option stands behind flags. -/
def Behind (c : Char) (arg : Text) : Prop :=
  ∃ flags value, flags ≠ [] ∧ flags.all getopt.isFlag ∧ arg = '-' :: (flags ++ c :: value)

/-- An argument spells an option: as it is, a long one with `=` and a value, a short one behind flags, if any,
with what is attached to it, if anything. -/
inductive Spells (option arg : Text) : Prop
  | exact : arg = option → Spells option arg
  | inlineValue {name value : Text} : option = '-' :: '-' :: name → arg = option ++ '=' :: value → Spells option arg
  | short {c : Char} {flags value : Text} : option = ['-', c] → flags.all getopt.isFlag →
    arg = '-' :: (flags ++ c :: value) → Spells option arg

/-- Where arguments are checked against a list of options. -/
inductive Place
  | ripgrep
  | base64
  | gitGlobal
  | gitSubcommand
  deriving DecidableEq

namespace Place

def exactOptions (patterns : List GitOptionPattern) : List Text :=
  patterns.filterMap fun
    | .exact option => some option
    | _ => none

def unsafeOptions : Place → List Text
  | ripgrep => unsafeRipgrepOptionsWithoutArgs ++ unsafeRipgrepOptionsWithArgs
  | base64 => unsafeBase64Options
  | gitGlobal => exactOptions unsafeGitGlobalOptions
  | gitSubcommand => exactOptions unsafeGitSubcommandOptions

/-- The code's test of an argument. -/
def flagged (arg : Text) : Place → Bool
  | ripgrep => ripgrepFlagged arg
  | base64 => base64Flagged arg
  | gitGlobal => gitMatchesOptionPattern arg unsafeGitGlobalOptions
  | gitSubcommand => gitMatchesOptionPattern arg unsafeGitSubcommandOptions

/-- The arguments before a `--`, up to git's subcommand or after it where the tool is git. -/
def arguments (command : List Text) (place : Place) : List Text :=
  let args := (command.drop 1).takeWhile fun arg => arg ≠ "--".toList
  let tool := command.head?.bind (executableNameLookupKey host)
  match place, findGitSubcommand host command gitSubcommands with
  | ripgrep, _ => if tool = some "rg".toList then args else []
  | base64, _ => if tool = some "base64".toList then args else []
  | gitGlobal, some (idx, _) => args.take (idx - 1)
  | gitSubcommand, some (idx, _) => args.drop idx
  | _, none => []

/-- The spellings of a listed option that the test does not look for. -/
def Overlooked (arg : Text) : Place → Prop
  | ripgrep => startsWith arg "--search-zip=".toList ∨ (∃ value, value ≠ [] ∧ arg = '-' :: 'z' :: value) ∨
      Behind getopt 'z' arg
  | base64 => Behind getopt 'o' arg
  | gitGlobal => startsWith arg "--paginate=".toList ∨ (∃ value, value ≠ [] ∧ arg = '-' :: 'p' :: value) ∨
      Behind getopt 'p' arg ∨ Behind getopt 'C' arg ∨ Behind getopt 'c' arg
  | gitSubcommand => startsWith arg "--ext-diff=".toList ∨ startsWith arg "--textconv=".toList

end Place

variable {getopt} {arg : Text}

theorem startsWith_iff {pre : Text} : startsWith arg pre = true ↔ ∃ value, arg = pre ++ value := by
  rw [startsWith, List.isPrefixOf_iff_prefix]
  exact exists_congr fun value => eq_comm

theorem spells_long (option withValue : Text)
    (h : startsWith option "--".toList ∧ 2 < option.length ∧ option ++ ['='] = withValue) :
    Spells getopt option arg ↔ arg = option ∨ startsWith arg withValue := by
  obtain ⟨hlong, hlength, heq⟩ := h
  rw [startsWith_iff, ← heq]
  constructor
  · rintro (hexact | ⟨-, hvalue⟩ | ⟨hshort, -, -⟩)
    · exact .inl hexact
    · exact .inr ⟨_, by rw [hvalue, List.append_assoc, List.singleton_append]⟩
    · rw [hshort] at hlength
      exact absurd hlength (by simp)
  · rintro (hexact | ⟨value, hvalue⟩)
    · exact .exact hexact
    · obtain ⟨name, hname⟩ := startsWith_iff.1 hlong
      exact .inlineValue hname (by rw [hvalue, List.append_assoc, List.singleton_append])

theorem spells_short (option : Text) (c : Char) (hoption : option = ['-', c]) (hc : c ≠ '-') : Spells getopt option arg ↔
    arg = option ∨ (∃ value, value ≠ [] ∧ arg = '-' :: c :: value) ∨ Behind getopt c arg := by
  subst hoption
  constructor
  · rintro (hexact | ⟨hname, -⟩ | ⟨hshort, hflags, harg⟩)
    · exact .inl hexact
    · exact absurd (List.cons.inj (List.cons.inj hname).2).1 hc
    · obtain rfl := (List.cons.inj (List.cons.inj hshort).2).1
      rename_i flags value
      cases flags with
      | cons f flags => exact .inr (.inr ⟨f :: flags, value, List.cons_ne_nil _ _, hflags, harg⟩)
      | nil =>
        cases value with
        | nil => exact .inl harg
        | cons v value => exact .inr (.inl ⟨v :: value, List.cons_ne_nil _ _, harg⟩)
  · rintro (hexact | ⟨value, -, harg⟩ | ⟨flags, value, -, hflags, harg⟩)
    · exact .exact hexact
    · exact @Spells.short _ _ _ c [] value rfl rfl harg
    · exact .short rfl hflags harg

theorem attached_iff (option : Text) (c : Char) (hoption : option = ['-', c]) :
    (startsWith arg option && decide (option.length < arg.length)) = true ↔ ∃ value, value ≠ [] ∧ arg = '-' :: c :: value := by
  subst hoption
  rw [Bool.and_eq_true, decide_eq_true_eq, startsWith_iff]
  constructor
  · rintro ⟨⟨value, rfl⟩, hlength⟩
    refine ⟨value, ?_, rfl⟩
    rintro rfl
    exact absurd hlength (by simp)
  · rintro ⟨value, hne, rfl⟩
    refine ⟨⟨value, rfl⟩, ?_⟩
    simpa using List.length_pos_of_ne_nil hne

namespace Place

/-- What spells a listed option: what the code's test flags, and what it overlooks. -/
theorem spelled_iff (place : Place) :
    (∃ option ∈ place.unsafeOptions, Spells getopt option arg) ↔ place.flagged arg ∨ place.Overlooked getopt arg := by
  cases place with
  | ripgrep =>
    show (∃ option ∈ ["--search-zip".toList, "-z".toList, "--pre".toList, "--hostname-bin".toList], _) ↔ _
    simp only [List.mem_cons, List.not_mem_nil, or_false, exists_eq_or_imp, exists_eq_left]
    rw [spells_long "--search-zip".toList "--search-zip=".toList (by decide),
      spells_short "-z".toList 'z' rfl (by decide), spells_long "--pre".toList ("--pre".toList ++ ['=']) (by decide),
      spells_long "--hostname-bin".toList ("--hostname-bin".toList ++ ['=']) (by decide)]
    simp only [flagged, ripgrepFlagged, unsafeRipgrepOptionsWithoutArgs, unsafeRipgrepOptionsWithArgs, Overlooked,
      List.contains_cons, List.contains_nil, List.any_cons, List.any_nil, Bool.or_eq_true, Bool.or_false, beq_iff_eq,
      decide_eq_true_eq]
    exact iff_of_eq (by ac_rfl)
  | base64 =>
    show (∃ option ∈ ["-o".toList, "--output".toList], _) ↔ _
    simp only [List.mem_cons, List.not_mem_nil, or_false, exists_eq_or_imp, exists_eq_left]
    rw [spells_short "-o".toList 'o' rfl (by decide),
      spells_long "--output".toList "--output=".toList (by decide)]
    simp only [flagged, base64Flagged, unsafeBase64Options, Overlooked, List.contains_cons, List.contains_nil,
      Bool.or_eq_true, Bool.or_false, beq_iff_eq]
    have hattached : startsWith arg "-o".toList = true ∧ decide (arg ≠ "-o".toList) = true ↔
        ∃ value, value ≠ [] ∧ arg = '-' :: 'o' :: value := by
      rw [decide_eq_true_eq, startsWith_iff]
      constructor
      · rintro ⟨⟨value, rfl⟩, hne⟩
        refine ⟨value, ?_, rfl⟩
        rintro rfl
        exact hne rfl
      · rintro ⟨value, hne, rfl⟩
        exact ⟨⟨value, rfl⟩, fun heq => hne (List.cons.inj (List.cons.inj heq).2).2⟩
    rw [Bool.and_eq_true, hattached]
    exact iff_of_eq (by ac_rfl)
  | gitGlobal =>
    show (∃ option ∈ ["-C".toList, "-c".toList, "-p".toList, "--config-env".toList, "--exec-path".toList, "--git-dir".toList,
      "--namespace".toList, "--paginate".toList, "--super-prefix".toList, "--work-tree".toList], _) ↔ _
    simp only [List.mem_cons, List.not_mem_nil, or_false, exists_eq_or_imp, exists_eq_left]
    rw [spells_short "-C".toList 'C' rfl (by decide), spells_short "-c".toList 'c' rfl (by decide),
      spells_short "-p".toList 'p' rfl (by decide),
      spells_long "--config-env".toList "--config-env=".toList (by decide),
      spells_long "--exec-path".toList "--exec-path=".toList (by decide),
      spells_long "--git-dir".toList "--git-dir=".toList (by decide),
      spells_long "--namespace".toList "--namespace=".toList (by decide),
      spells_long "--paginate".toList "--paginate=".toList (by decide),
      spells_long "--super-prefix".toList "--super-prefix=".toList (by decide),
      spells_long "--work-tree".toList "--work-tree=".toList (by decide)]
    simp only [flagged, gitMatchesOptionPattern, unsafeGitGlobalOptions, GitOptionPattern.matchesArg, Overlooked,
      List.any_cons, List.any_nil, Bool.or_eq_true, Bool.or_false, decide_eq_true_eq]
    rw [attached_iff "-C".toList 'C' rfl, attached_iff "-c".toList 'c' rfl]
    exact iff_of_eq (by ac_rfl)
  | gitSubcommand =>
    show (∃ option ∈ ["--output".toList, "--ext-diff".toList, "--textconv".toList, "--exec".toList], _) ↔ _
    simp only [List.mem_cons, List.not_mem_nil, or_false, exists_eq_or_imp, exists_eq_left]
    rw [spells_long "--output".toList "--output=".toList (by decide),
      spells_long "--ext-diff".toList "--ext-diff=".toList (by decide),
      spells_long "--textconv".toList "--textconv=".toList (by decide),
      spells_long "--exec".toList "--exec=".toList (by decide)]
    simp only [flagged, gitMatchesOptionPattern, unsafeGitSubcommandOptions, GitOptionPattern.matchesArg, Overlooked,
      List.any_cons, List.any_nil, Bool.or_eq_true, Bool.or_false, decide_eq_true_eq]
    exact iff_of_eq (by ac_rfl)

end Place

/-! ## Accepted commands -/

variable {host} {command : List Text}

/-- The tools with a test of their own. -/
theorem isSafeToCallWithExec_of_key {cmd : Text} (hkey : command.head?.bind (executableNameLookupKey host) = some cmd)
    (hcmd : cmd ∈ ["rg".toList, "base64".toList, "git".toList]) : isSafeToCallWithExec host command =
      if cmd = "base64".toList then !(command.drop 1).any base64Flagged
      else if cmd = "rg".toList then !command.any ripgrepFlagged
      else isSafeGitCommand host command := by
  have hlinux : ∀ {b : Bool}, b = false → ¬ (decide (host.os = .linux) && b) = true := by
    rintro b rfl
    rw [Bool.and_false]
    exact Bool.false_ne_true
  rw [isSafeToCallWithExec, hkey]
  simp only [List.mem_cons, List.not_mem_nil, or_false] at hcmd
  rcases hcmd with rfl | rfl | rfl
  · dsimp only
    rw [if_neg (hlinux (by decide)), if_neg (by decide), if_neg (by decide), if_neg (by decide), if_pos rfl,
      if_neg (by decide), if_pos rfl]
  · dsimp only
    rw [if_neg (hlinux (by decide)), if_neg (by decide), if_pos rfl, if_pos rfl]
  · dsimp only
    rw [if_neg (hlinux (by decide)), if_neg (by decide), if_neg (by decide), if_neg (by decide), if_neg (by decide),
      if_pos rfl, if_neg (by decide), if_neg (by decide)]

theorem findGitSubcommand_key {found} (h : findGitSubcommand host command gitSubcommands = some found) :
    command.head?.bind (executableNameLookupKey host) = some "git".toList := by
  unfold findGitSubcommand at h
  split at h
  next => cases h
  next cmd0 args =>
    split at h
    next => cases h
    next hkey => exact not_not.1 hkey

theorem isSafeGitCommand_args {idx : Nat} {subcommand : Text} (h : isSafeGitCommand host command = true)
    (hfind : findGitSubcommand host command gitSubcommands = some (idx, subcommand)) :
    gitHasUnsafeGlobalOption ((command.take idx).drop 1) = false ∧
      gitSubcommandArgsAreReadOnly (command.drop (idx + 1)) = true := by
  rw [isSafeGitCommand, hfind] at h
  dsimp only at h
  split at h
  next => cases h
  next hglobal =>
    refine ⟨Bool.eq_false_iff.2 hglobal, ?_⟩
    split at h
    next => exact h
    next =>
      split at h
      next => exact (Bool.and_eq_true_iff.1 h).1
      next => cases h

theorem Place.not_flagged (h : isSafeToCallWithExec host command = true) {place : Place}
    (harg : arg ∈ place.arguments host command) : place.flagged arg = false := by
  have hargs : (command.drop 1).takeWhile (fun arg => arg ≠ "--".toList) <+: command.drop 1 := List.takeWhile_prefix _
  have hunflagged : ∀ {args : List Text} {test : Text → Bool}, args.any test = false → arg ∈ args → test arg = false :=
    fun hany hmem => Bool.eq_false_iff.2 fun htest => List.any_eq_false.1 hany _ hmem htest
  cases place with
  | ripgrep =>
    simp only [Place.arguments, List.mem_ite_nil_right] at harg
    rw [isSafeToCallWithExec_of_key harg.1 (by decide), if_neg (by decide), if_pos rfl, Bool.not_eq_true'] at h
    exact hunflagged h (List.mem_of_mem_drop (hargs.subset harg.2))
  | base64 =>
    simp only [Place.arguments, List.mem_ite_nil_right] at harg
    rw [isSafeToCallWithExec_of_key harg.1 (by decide), if_pos rfl, Bool.not_eq_true'] at h
    exact hunflagged h (hargs.subset harg.2)
  | gitGlobal =>
    unfold Place.arguments at harg
    cases hfind : findGitSubcommand host command gitSubcommands with
    | none =>
      rw [hfind] at harg
      cases harg
    | some found =>
      rw [hfind] at harg
      rw [isSafeToCallWithExec_of_key (findGitSubcommand_key hfind) (by decide)] at h
      have hglobal := (isSafeGitCommand_args h hfind).1
      rw [List.drop_take] at hglobal
      exact hunflagged hglobal ((hargs.take _).subset harg)
  | gitSubcommand =>
    unfold Place.arguments at harg
    cases hfind : findGitSubcommand host command gitSubcommands with
    | none =>
      rw [hfind] at harg
      cases harg
    | some found =>
      rw [hfind] at harg
      rw [isSafeToCallWithExec_of_key (findGitSubcommand_key hfind) (by decide)] at h
      have hread := (isSafeGitCommand_args h hfind).2
      rw [gitSubcommandArgsAreReadOnly, Bool.not_eq_true', Nat.add_comm, ← List.drop_drop] at hread
      exact hunflagged hread ((hargs.drop _).subset harg)

/-- **An accepted command spells a listed option just in the ways the tests overlook.** -/
theorem safe_options_iff (flags : Place → Getopt) (h : isSafeToCallWithExec host command = true) :
    (∀ place : Place, ∀ arg ∈ place.arguments host command, ∀ option ∈ place.unsafeOptions,
      ¬ Spells (flags place) option arg) ↔
    ∀ place : Place, ∀ arg ∈ place.arguments host command, ¬ place.Overlooked (flags place) arg := by
  refine forall_congr' fun place => forall₂_congr fun arg harg => ?_
  have hspelled := @Place.spelled_iff (flags place) arg place
  rw [Place.not_flagged h harg] at hspelled
  constructor
  · intro hnone hoverlooked
    obtain ⟨option, hoption, hspells⟩ := hspelled.2 (.inr hoverlooked)
    exact hnone option hoption hspells
  · intro hnot option hoption hspells
    exact hnot ((hspelled.1 ⟨option, hoption, hspells⟩).resolve_left Bool.false_ne_true)

/-! ## What the tests overlook -/

def linuxHost : Host where
  os := .linux
  windowsFileName := fun _ => none

/-- Of the flags of `rg`, `i`. -/
def ignoreCase : Getopt where
  isFlag := fun c => c = 'i'
  dash := rfl

def ripgrepNumbered : List Text := ["rg".toList, "-n".toList, "needle".toList]

theorem safe_options_iff_ripgrep : isSafeToCallWithExec linuxHost ripgrepNumbered = true ∧
    ((∀ place : Place, ∀ arg ∈ place.arguments linuxHost ripgrepNumbered, ∀ option ∈ place.unsafeOptions,
      ¬ Spells ignoreCase option arg) ↔
    ∀ place : Place, ∀ arg ∈ place.arguments linuxHost ripgrepNumbered, ¬ place.Overlooked ignoreCase arg) :=
  ⟨by decide, safe_options_iff (fun _ => ignoreCase) (by decide)⟩

/-- The search of compressed files in a cluster: `rg -iz`. -/
theorem searchZip_clustered : ¬ ∀ (host : Host) (flags : Place → Getopt) (command : List Text),
    isSafeToCallWithExec host command = true → ∀ place : Place, ∀ arg ∈ place.arguments host command,
      ∀ option ∈ place.unsafeOptions, ¬ Spells (flags place) option arg := by
  intro h
  exact h linuxHost (fun _ => ignoreCase) ["rg".toList, "-iz".toList, "needle".toList] (by decide) .ripgrep "-iz".toList
    (by decide) "-z".toList (by decide) (@Spells.short _ _ _ 'z' ['i'] [] rfl (by decide) rfl)

end Codex.CommandSafety
