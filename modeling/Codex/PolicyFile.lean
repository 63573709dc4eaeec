/-
A rules file under its two writers: `append_locked_line`
(`execpolicy/src/amend.rs`), which holds the file's lock from before its read to
after its last write, and `clean_rules_file`
(`execpolicy/src/sandbox_migration.rs`), which takes no lock. Each action of the
system is one file operation of one of them.

A file is the text it holds and lengths count its characters, which says the
same as bytes of every state but the one between the migration's rewrite and its
truncation. `serde_json` is the parameter `JsonCodec`.
-/
import Codex.Text
import Mathlib.Data.List.Basic
import Mathlib.Logic.Function.Basic

namespace Codex.PolicyFile

open Text

/-! ## Rules -/

structure JsonCodec where
  /-- `serde_json::from_str::<Vec<String>>` -/
  fromStr : Text → Option (List Text)
  /-- `serde_json::to_string` of a token. -/
  toString : Text → Text

def rulePrefix : Text := "prefix_rule(pattern=".toList

def ruleSuffix : Text := ", decision=\"allow\")".toList

/-- `str::strip_suffix`. -/
def stripEnd (suffix s : Text) : Option Text :=
  if suffix.isSuffixOf s then some (s.take (s.length - suffix.length)) else none

def lowercase (tokens : List Text) : List Text := tokens.map fun token => token.map Char.toLower

/-- The test of `should_remove_rule` once the line ending is off. -/
def isBannedRule (json : JsonCodec) (banned : List (List Text)) (line : Text) : Bool :=
  match (stripStart rulePrefix line).bind (stripEnd ruleSuffix) with
  | none => false
  | some pattern =>
    match json.fromStr pattern with
    | none => false
    | some tokens => (banned.map lowercase).contains (lowercase tokens)

def shouldRemoveRule (json : JsonCodec) (banned : List (List Text)) (line : Text) : Bool :=
  let line := (stripEnd ['\n'] line).getD line
  let line := (stripEnd ['\r'] line).getD line
  isBannedRule json banned line

/-- `str::split_inclusive('\n')`. -/
def splitInclusive (s : Text) : List Text :=
  (splitNewlines s).1.map (· ++ ['\n']) ++ if (splitNewlines s).2 = [] then [] else [(splitNewlines s).2]

def stripBannedAllowRules (json : JsonCodec) (banned : List (List Text)) (contents : Text) : Text :=
  ((splitInclusive contents).filter (!shouldRemoveRule json banned ·)).flatten

def commaJoin : List Text → Text := List.intercalate ", ".toList

/-- The line `blocking_append_allow_prefix_rule` writes. -/
def allowPrefixRule (json : JsonCodec) (tokens : List Text) : Text :=
  rulePrefix ++ ("[".toList ++ commaJoin (tokens.map json.toString) ++ "]".toList) ++ ruleSuffix

/-! ## Appending -/

def needsNewline (contents : Text) : Bool := !contents.isEmpty && contents.getLast? != some '\n'

/-- What `append_locked_line` leaves of the contents it reads. -/
def appendLine (contents line : Text) : Text :=
  if line ∈ lines contents then contents
  else contents ++ (if needsNewline contents then ['\n'] else []) ++ (line ++ ['\n'])

/-! ## The system -/

/-- An append: `locked` is about to read, `newline` to write the missing newline, `line` to write the line; `failed` gave
up before it wrote. -/
inductive AppenderPc where
  | ready
  | opened
  | locked
  | newline
  | line
  | returned
  | failed
  deriving DecidableEq, Repr

/-- The migration: `opened` is about to read through its handle; `rewriting` and `truncating` hold
the text to keep; it returns with the file left alone (`unchanged`) or `cleaned`. -/
inductive MigrationPc where
  | start
  | opening
  | opened
  | rewriting (retained : Text)
  | truncating (retained : Text)
  | unchanged
  | cleaned
  deriving DecidableEq, Repr

structure RulesFile where
  file : Option Text
  lock : Option Nat := none
  migration : MigrationPc := .start
  appender : Nat → AppenderPc := fun _ => .ready
  /-- The lines of the calls that have succeeded, in the order of their locked sections. -/
  appended : List Text := []

inductive Action where
  | migrate
  | append (i : Nat)
  | fail (i : Nat)
  deriving DecidableEq, Repr

namespace RulesFile

def contents (s : RulesFile) : Text := s.file.getD []

def setAppender (s : RulesFile) (i : Nat) (pc : AppenderPc) : RulesFile :=
  { s with appender := Function.update s.appender i pc }

end RulesFile

section
variable (json : JsonCodec) (banned : List (List Text)) (lineOf : Nat → Text)

def migrationStep (s : RulesFile) : RulesFile :=
  match s.migration with
  | .start =>
    match s.file with
    | none => { s with migration := .unchanged }
    | some contents =>
      if stripBannedAllowRules json banned contents = contents then { s with migration := .unchanged }
      else { s with migration := .opening }
  | .opening => if s.file.isNone then { s with migration := .unchanged } else { s with migration := .opened }
  | .opened =>
    let retained := stripBannedAllowRules json banned s.contents
    if retained = s.contents then { s with migration := .unchanged } else { s with migration := .rewriting retained }
  | .rewriting retained =>
    { s with file := some (retained ++ s.contents.drop retained.length), migration := .truncating retained }
  | .truncating retained => { s with file := some (s.contents.take retained.length), migration := .cleaned }
  | .unchanged => s
  | .cleaned => s

/-- The call returns: its lock is released and its line is in the file. -/
def returnAppend (s : RulesFile) (i : Nat) : RulesFile :=
  { s.setAppender i .returned with lock := none, appended := s.appended ++ [lineOf i] }

def appenderStep (s : RulesFile) (i : Nat) : RulesFile :=
  match s.appender i with
  | .ready => { s.setAppender i .opened with file := some s.contents }
  | .opened => if s.lock.isNone then { s.setAppender i .locked with lock := some i } else s
  | .locked =>
    if lineOf i ∈ lines s.contents then returnAppend lineOf s i
    else if needsNewline s.contents then s.setAppender i .newline
    else s.setAppender i .line
  | .newline => { s.setAppender i .line with file := some (s.contents ++ ['\n']) }
  | .line => { returnAppend lineOf s i with file := some (s.contents ++ (lineOf i ++ ['\n'])) }
  | .returned => s
  | .failed => s

/-- An open, a lock or a read that fails. -/
def failStep (s : RulesFile) (i : Nat) : RulesFile :=
  match s.appender i with
  | .ready | .opened => s.setAppender i .failed
  | .locked => { s.setAppender i .failed with lock := none }
  | _ => s

def step (s : RulesFile) : Action → RulesFile
  | .migrate => migrationStep json banned s
  | .append i => appenderStep lineOf s i
  | .fail i => failStep s i

def run (s : RulesFile) (actions : List Action) : RulesFile := actions.foldl (step json banned lineOf) s

end

end Codex.PolicyFile
