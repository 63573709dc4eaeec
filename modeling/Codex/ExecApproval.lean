/-
The approval a command needs (`core/src/exec_policy.rs`,
`create_exec_approval_requirement_for_command`). The command is parsed into
segments, each segment is matched against the policy or, where no rule applies,
judged by `render_decision_for_unmatched_command`, and the strictest decision
of all segments settles the requirement.

The shell parsers, the two command classifiers and `shlex` are fields of `ShellCommands`.
Of a permission profile only the file system part is read, so network policies are left
out.
-/
import Codex.PolicyOverlay

namespace Codex.ExecPolicy

open Text

/-! ## Requests -/

structure GranularApprovalConfig where
  sandboxApproval : Bool
  rules : Bool
  deriving DecidableEq, Repr

inductive AskForApproval where
  | unlessTrusted
  | onRequest
  | granular (config : GranularApprovalConfig)
  | never
  deriving DecidableEq, Repr

inductive WindowsSandboxLevel where
  | disabled
  | restrictedToken
  | elevated
  deriving DecidableEq, Repr

inductive SandboxPermissions where
  | useDefault
  | requireEscalated
  | withAdditionalPermissions
  deriving DecidableEq, Repr

def SandboxPermissions.requestsSandboxOverride : SandboxPermissions → Bool
  | .useDefault => false
  | _ => true

inductive FileSystemAccessMode where
  | read
  | write
  | deny
  deriving DecidableEq, Repr

namespace FileSystemAccessMode

def canWrite : FileSystemAccessMode → Bool
  | write => true
  | _ => false

/-- The place in the derived order: the later mode wins a tie. -/
def rank : FileSystemAccessMode → Nat
  | read => 0
  | write => 1
  | deny => 2

end FileSystemAccessMode

inductive FileSystemSpecialPath where
  | root
  | minimal
  | projectRoots (subpath : Option Text)
  | tmpdir
  | slashTmp
  | unknown (path : Text) (subpath : Option Text)
  deriving DecidableEq, Repr

inductive FileSystemPath where
  | path (path : AbsolutePath)
  | globPattern (pattern : Text)
  | special (value : FileSystemSpecialPath)
  deriving DecidableEq, Repr

structure FileSystemSandboxEntry where
  path : FileSystemPath
  access : FileSystemAccessMode
  deriving DecidableEq, Repr

inductive FileSystemSandboxKind where
  | restricted
  | unrestricted
  | externalSandbox
  deriving DecidableEq, Repr

structure FileSystemSandboxPolicy where
  kind : FileSystemSandboxKind
  entries : List FileSystemSandboxEntry
  deriving DecidableEq, Repr

inductive ManagedFileSystemPermissions where
  | restricted (entries : List FileSystemSandboxEntry)
  | unrestricted
  deriving DecidableEq, Repr

inductive PermissionProfile where
  | managed (fileSystem : ManagedFileSystemPermissions)
  | disabled
  | external
  deriving DecidableEq, Repr

def specialPathsShareTarget : FileSystemSpecialPath → FileSystemSpecialPath → Bool
  | .root, .root => true
  | .minimal, .minimal => true
  | .tmpdir, .tmpdir => true
  | .slashTmp, .slashTmp => true
  | .projectRoots left, .projectRoots right => left == right
  | .unknown left leftSubpath, .unknown right rightSubpath => left == right && leftSubpath == rightSubpath
  | _, _ => false

def specialPathMatchesAbsolutePath : FileSystemSpecialPath → AbsolutePath → Bool
  | .root, path => path.components.isEmpty
  | .slashTmp, path => path == { volume := [], components := ["tmp".toList] }
  | _, _ => false

def fileSystemPathsShareTarget : FileSystemPath → FileSystemPath → Bool
  | .path left, .path right => left == right
  | .special left, .special right => specialPathsShareTarget left right
  | .path path, .special value => specialPathMatchesAbsolutePath value path
  | .special value, .path path => specialPathMatchesAbsolutePath value path
  | .globPattern left, .globPattern right => left == right
  | .globPattern _, _ => false
  | _, .globPattern _ => false

namespace FileSystemSandboxPolicy

def hasRootAccess (policy : FileSystemSandboxPolicy) (predicate : FileSystemAccessMode → Bool) : Bool :=
  policy.kind == .restricted &&
    policy.entries.any fun entry => entry.path == .special .root && predicate entry.access

def hasSameTargetWriteOverride (policy : FileSystemSandboxPolicy) (entry : FileSystemSandboxEntry) : Bool :=
  policy.entries.any fun candidate =>
    candidate.access.canWrite && entry.access.rank < candidate.access.rank &&
      fileSystemPathsShareTarget candidate.path entry.path

def hasWriteNarrowingEntries (policy : FileSystemSandboxPolicy) : Bool :=
  policy.kind == .restricted && policy.entries.any fun entry =>
    if entry.access.canWrite then false
    else match entry.path with
      | .path _ => !policy.hasSameTargetWriteOverride entry
      | .globPattern _ => true
      | .special .root => entry.access == .deny
      | .special .minimal => false
      | .special (.unknown ..) => false
      | .special _ => !policy.hasSameTargetWriteOverride entry

def hasFullDiskWriteAccess (policy : FileSystemSandboxPolicy) : Bool :=
  match policy.kind with
  | .unrestricted | .externalSandbox => true
  | .restricted => policy.hasRootAccess FileSystemAccessMode.canWrite && !policy.hasWriteNarrowingEntries

end FileSystemSandboxPolicy

def PermissionProfile.fileSystemSandboxPolicy : PermissionProfile → FileSystemSandboxPolicy
  | .managed (.restricted entries) => { kind := .restricted, entries }
  | .managed .unrestricted => { kind := .unrestricted, entries := [] }
  | .disabled => { kind := .unrestricted, entries := [] }
  | .external => { kind := .externalSandbox, entries := [] }

structure ExecApprovalRequest where
  command : List Text
  approvalPolicy : AskForApproval
  permissionProfile : PermissionProfile
  windowsSandboxLevel : WindowsSandboxLevel
  sandboxPermissions : SandboxPermissions
  prefixRule : Option (List Text)

structure ExecPolicyAmendment where
  command : List Text
  deriving DecidableEq, Repr

inductive ExecApprovalRequirement where
  | skip (bypassSandbox : Bool) (proposedExecpolicyAmendment : Option ExecPolicyAmendment)
  | needsApproval (reason : Option Text) (proposedExecpolicyAmendment : Option ExecPolicyAmendment)
  | forbidden (reason : Text)
  deriving DecidableEq, Repr

/-! ## Segments -/

inductive DangerousCommandMatch where
  | forcedRm
  | other
  deriving DecidableEq, Repr

/-- `powerShell` is only built on Windows. -/
inductive ExecPolicyCommandOrigin where
  | generic
  | powerShell
  deriving DecidableEq, Repr

structure ShellCommands where
  parseShellLcPlainCommands : List Text → Option (List (List Text))
  parsePowershellCommandIntoPlainCommands : List Text → Option (List (List Text))
  parseShellLcSingleCommandPrefix : List Text → Option (List Text)
  dangerousCommandMatch : List Text → Option DangerousCommandMatch
  dangerousPowershellWordsMatch : List Text → Option DangerousCommandMatch
  isKnownSafeCommand : List Text → Bool
  isSafePowershellWords : List Text → Bool
  shlexTryJoin : List Text → Option Text

structure ExecPolicyCommands where
  commands : List (List Text)
  usedComplexParsing : Bool
  commandOrigin : ExecPolicyCommandOrigin

section
variable (host : Host) (shell : ShellCommands)

/-- What follows the plain parser: the PowerShell parser on Windows, the parser of a single
command's words, or the command itself. -/
def commandsForOtherShells (command : List Text) : ExecPolicyCommands :=
  match (if host.windows then shell.parsePowershellCommandIntoPlainCommands command else none).filter (!·.isEmpty) with
  | some commands => { commands, usedComplexParsing := false, commandOrigin := .powerShell }
  | none =>
    match shell.parseShellLcSingleCommandPrefix command with
    | some singleCommand => { commands := [singleCommand], usedComplexParsing := true, commandOrigin := .generic }
    | none => { commands := [command], usedComplexParsing := false, commandOrigin := .generic }

def commandsForExecPolicy (command : List Text) : ExecPolicyCommands :=
  match (shell.parseShellLcPlainCommands command).filter (!·.isEmpty) with
  | some commands => { commands, usedComplexParsing := false, commandOrigin := .generic }
  | none => commandsForOtherShells host shell command

/-! ## Unmatched commands -/

def dangerousCommandMatchForOrigin (command : List Text) : ExecPolicyCommandOrigin → Option DangerousCommandMatch
  | .generic => shell.dangerousCommandMatch command
  | .powerShell => shell.dangerousPowershellWordsMatch command

def isKnownSafe (command : List Text) : ExecPolicyCommandOrigin → Bool
  | .generic => shell.isKnownSafeCommand command
  | .powerShell => shell.isSafePowershellWords command

def profileHasManagedFilesystemRestrictions (profile : PermissionProfile) : Bool :=
  let policy := profile.fileSystemSandboxPolicy
  (match profile with | .managed _ => true | _ => false) && policy.kind == .restricted && !policy.hasFullDiskWriteAccess

structure UnmatchedCommandContext where
  approvalPolicy : AskForApproval
  permissionProfile : PermissionProfile
  windowsSandboxLevel : WindowsSandboxLevel
  sandboxPermissions : SandboxPermissions
  usedComplexParsing : Bool
  commandOrigin : ExecPolicyCommandOrigin

/-- The decision by the sandbox alone, alike for on-request and granular approval. -/
def decisionForSandbox (context : UnmatchedCommandContext) : Decision :=
  match context.permissionProfile.fileSystemSandboxPolicy.kind with
  | .unrestricted | .externalSandbox => .allow
  | .restricted => if context.sandboxPermissions.requestsSandboxOverride then .prompt else .allow

def renderDecisionForUnmatchedCommand (context : UnmatchedCommandContext) (command : List Text) : Decision :=
  let windowsManagedFsRestrictionsWithoutSandboxBackend := host.windows &&
    context.windowsSandboxLevel == .disabled && profileHasManagedFilesystemRestrictions context.permissionProfile
  if isKnownSafe shell command context.commandOrigin && !context.usedComplexParsing &&
      (context.approvalPolicy == .unlessTrusted || windowsManagedFsRestrictionsWithoutSandboxBackend) then .allow
  else if (dangerousCommandMatchForOrigin shell command context.commandOrigin).isSome ||
      windowsManagedFsRestrictionsWithoutSandboxBackend then
    match context.approvalPolicy with
    | .never => .forbidden
    | .onRequest | .unlessTrusted | .granular _ => .prompt
  else
    match context.approvalPolicy with
    | .never => .allow
    | .unlessTrusted => .prompt
    | .onRequest => decisionForSandbox context
    | .granular _ => decisionForSandbox context

/-! ## Proposed amendments -/

def isPolicyMatch : RuleMatch → Bool
  | .prefixRuleMatch .. => true
  | .heuristicsRuleMatch .. => false

def heuristicsCommand (decision : Decision) : RuleMatch → Option (List Text)
  | .heuristicsRuleMatch command matchedDecision => if matchedDecision = decision then some command else none
  | .prefixRuleMatch .. => none

def tryDeriveExecpolicyAmendmentForPromptRules (matchedRules : List RuleMatch) : Option ExecPolicyAmendment :=
  if matchedRules.any fun ruleMatch => isPolicyMatch ruleMatch && ruleMatch.decision == .prompt then none
  else (matchedRules.findSome? (heuristicsCommand .prompt)).map ExecPolicyAmendment.mk

def tryDeriveExecpolicyAmendmentForAllowRules (matchedRules : List RuleMatch) : Option ExecPolicyAmendment :=
  if matchedRules.any isPolicyMatch then none
  else (matchedRules.findSome? (heuristicsCommand .allow)).map ExecPolicyAmendment.mk

def bannedPrefixSuggestions : List (List String) :=
  [["/bin/bash"], ["/bin/bash", "-c"], ["/bin/bash", "-lc"], ["/bin/sh"], ["/bin/sh", "-c"], ["/bin/sh", "-lc"],
    ["/bin/zsh"], ["/bin/zsh", "-c"], ["/bin/zsh", "-lc"], ["Rscript"], ["bash"], ["bash", "-c"],
    ["bash", "-lc"], ["bun"], ["bun", "-e"], ["bun", "run"], ["cmd"], ["cmd", "/c"],
    ["cmd", "/k"], ["cmd.exe"], ["cmd.exe", "/c"], ["cmd.exe", "/k"], ["dash"], ["dash", "-c"],
    ["deno"], ["deno", "eval"], ["env"], ["fish"], ["fish", "-c"], ["git"],
    ["julia"], ["julia", "-e"], ["ksh"], ["ksh", "-c"], ["lua"], ["lua", "-e"],
    ["node"], ["node", "-e"], ["nodejs"], ["nodejs", "-e"], ["npm", "run"], ["osascript"],
    ["perl"], ["perl", "-e"], ["php"], ["php", "-r"], ["pnpm", "run"], ["powershell"],
    ["powershell", "-Command"], ["powershell", "-EncodedCommand"], ["powershell", "-File"], ["powershell", "-c"], ["powershell.exe"], ["powershell.exe", "-Command"],
    ["powershell.exe", "-EncodedCommand"], ["powershell.exe", "-File"], ["powershell.exe", "-c"], ["pwsh"], ["pwsh", "-Command"], ["pwsh", "-EncodedCommand"],
    ["pwsh", "-File"], ["pwsh", "-c"], ["pwsh", "-e"], ["pwsh", "-ec"], ["pwsh", "-f"], ["py"],
    ["py", "-3"], ["pypy"], ["pypy3"], ["python"], ["python", "-"], ["python", "-c"],
    ["python3"], ["python3", "-"], ["python3", "-c"], ["pythonw"], ["pyw"], ["rm"],
    ["ruby"], ["ruby", "-e"], ["sh"], ["sh", "-c"], ["sh", "-lc"], ["sudo"],
    ["yarn", "run"], ["zsh"], ["zsh", "-c"], ["zsh", "-lc"]]

def prefixRuleWouldApproveAllCommands (policy : Policy) (prefixRule : List Text) (commands : List (List Text))
    (fallback : List Text → Decision) (options : MatchOptions) : Bool :=
  match policy.addPrefixRule prefixRule .allow with
  | .error _ => false
  | .ok policy => commands.all fun command =>
      (policy.checkWithOptions host command fallback options).any (·.decision == .allow)

def deriveRequestedExecpolicyAmendmentFromPrefixRule (prefixRule : Option (List Text)) (matchedRules : List RuleMatch)
    (policy : Policy) (commands : List (List Text)) (fallback : List Text → Decision) (options : MatchOptions) :
    Option ExecPolicyAmendment :=
  match prefixRule with
  | none => none
  | some prefixRule =>
    if prefixRule.isEmpty then none
    else if bannedPrefixSuggestions.any fun banned => banned.map String.toList == prefixRule then none
    else if matchedRules.any isPolicyMatch then none
    else if prefixRuleWouldApproveAllCommands host policy prefixRule commands fallback options then some ⟨prefixRule⟩
    else none

/-! ## Reasons -/

def promptConflictReason : Text := "approval required by policy, but AskForApproval is set to Never".toList

def rejectSandboxApprovalReason : Text :=
  "approval required by policy, but AskForApproval::Granular.sandbox_approval is false".toList

def rejectRulesApprovalReason : Text :=
  "approval required by policy rule, but AskForApproval::Granular.rules is false".toList

def promptIsRejectedByPolicy (promptIsRule : Bool) : AskForApproval → Option Text
  | .never => some promptConflictReason
  | .onRequest => none
  | .unlessTrusted => none
  | .granular config =>
    if promptIsRule then if config.rules then none else some rejectRulesApprovalReason
    else if config.sandboxApproval then none else some rejectSandboxApprovalReason

/-- `Iterator::max_by_key`: the last of the elements with the greatest key. -/
def maxByKey (key : α → Nat) (xs : List α) : Option α :=
  xs.foldl (fun best x => match best with
    | none => some x
    | some b => if key b ≤ key x then some x else some b) none

def renderShlexCommand (args : List Text) : Text := (shell.shlexTryJoin args).getD (List.intercalate [' '] args)

def quoted (command : Text) : Text := "`".toList ++ command ++ "`".toList

/-- The matched prefix and justification of the longest rule match with this decision. -/
def mostSpecific (decision : Decision) (evaluation : Evaluation) : Option (List Text × Option Text) :=
  maxByKey (·.1.length) (evaluation.matchedRules.filterMap fun
    | .prefixRuleMatch matchedPrefix matchedDecision _ justification =>
      if matchedDecision = decision then some (matchedPrefix, justification) else none
    | .heuristicsRuleMatch .. => none)

def derivePromptReason (commandArgs : List Text) (evaluation : Evaluation) : Option Text :=
  (mostSpecific .prompt evaluation).map fun
    | (_, some justification) =>
      quoted (renderShlexCommand shell commandArgs) ++ " requires approval: ".toList ++ justification
    | (_, none) => quoted (renderShlexCommand shell commandArgs) ++ " requires approval by policy".toList

def dangerousCommandRejectionReason : DangerousCommandMatch → Text
  | .forcedRm => "rm -f style commands are not permitted. Use a safer approach".toList
  | .other => "blocked by policy".toList

def deriveForbiddenReason (commandArgs : List Text) (evaluation : Evaluation)
    (dangerous : Option DangerousCommandMatch) : Text :=
  let command := renderShlexCommand shell commandArgs
  match mostSpecific .forbidden evaluation with
  | some (_, some justification) => quoted command ++ " rejected: ".toList ++ justification
  | some (matchedPrefix, none) =>
    quoted command ++ " rejected: policy forbids commands starting with ".toList ++
      quoted (renderShlexCommand shell matchedPrefix)
  | none =>
    match dangerous with
    | some dangerous => quoted command ++ " rejected: ".toList ++ dangerousCommandRejectionReason dangerous
    | none => quoted command ++ " rejected: blocked by policy".toList

def deriveRejectedPromptReason (fallbackReason : Text) : Option DangerousCommandMatch → Text
  | some .forcedRm => dangerousCommandRejectionReason .forcedRm
  | some .other | none => fallbackReason

def dangerousCommandMatchForHeuristics (evaluation : Evaluation) (decision : Decision)
    (origin : ExecPolicyCommandOrigin) : Option DangerousCommandMatch :=
  evaluation.matchedRules.findSome? fun ruleMatch => do
    dangerousCommandMatchForOrigin shell (← heuristicsCommand decision ruleMatch) origin

/-! ## The requirement -/

def ExecApprovalRequest.context (req : ExecApprovalRequest) (segments : ExecPolicyCommands) : UnmatchedCommandContext where
  approvalPolicy := req.approvalPolicy
  permissionProfile := req.permissionProfile
  windowsSandboxLevel := req.windowsSandboxLevel
  sandboxPermissions := req.sandboxPermissions
  usedComplexParsing := segments.usedComplexParsing
  commandOrigin := segments.commandOrigin

def promptRequirement (req : ExecApprovalRequest) (segments : ExecPolicyCommands) (evaluation : Evaluation)
    (requestedAmendment : Option ExecPolicyAmendment) : ExecApprovalRequirement :=
  let promptIsRule := evaluation.matchedRules.any fun ruleMatch =>
    isPolicyMatch ruleMatch && ruleMatch.decision == .prompt
  match promptIsRejectedByPolicy promptIsRule req.approvalPolicy with
  | some reason =>
    if promptIsRule then .forbidden reason
    else .forbidden (deriveRejectedPromptReason reason
      (dangerousCommandMatchForHeuristics shell evaluation .prompt segments.commandOrigin))
  | none =>
    .needsApproval (derivePromptReason shell req.command evaluation)
      (requestedAmendment.orElse fun _ =>
        if segments.usedComplexParsing then none
        else tryDeriveExecpolicyAmendmentForPromptRules evaluation.matchedRules)

/-- Every segment is matched by an explicit allow rule. -/
def bypassesSandbox (policy : Policy) (commands : List (List Text)) (options : MatchOptions) : Bool :=
  commands.all fun command =>
    (policy.matchesForCommandWithOptions host command none options).any fun ruleMatch =>
      isPolicyMatch ruleMatch && ruleMatch.decision == .allow

/-- `create_exec_approval_requirement_for_command` on the manager's current policy; none is the
panic of `Evaluation::from_matches`. -/
def createExecApprovalRequirementForCommand (policy : Policy) (req : ExecApprovalRequest) :
    Option ExecApprovalRequirement := do
  let segments := commandsForExecPolicy host shell req.command
  let fallback := renderDecisionForUnmatchedCommand host shell (req.context segments)
  let options : MatchOptions := { resolveHostExecutables := true }
  let evaluation ← policy.checkMultipleWithOptions host segments.commands fallback options
  let requestedAmendment := if segments.usedComplexParsing then none
    else deriveRequestedExecpolicyAmendmentFromPrefixRule host req.prefixRule evaluation.matchedRules policy
      segments.commands fallback options
  return match evaluation.decision with
    | .forbidden => .forbidden (deriveForbiddenReason shell req.command evaluation
        (dangerousCommandMatchForHeuristics shell evaluation .forbidden segments.commandOrigin))
    | .prompt => promptRequirement shell req segments evaluation requestedAmendment
    | .allow => .skip (bypassesSandbox host policy segments.commands options)
        (if segments.usedComplexParsing then none
        else tryDeriveExecpolicyAmendmentForAllowRules evaluation.matchedRules)

/-! ## What a skipped approval says of the segments -/

theorem commandsForExecPolicy_ne_nil (command : List Text) : (commandsForExecPolicy host shell command).commands ≠ [] := by
  rw [commandsForExecPolicy]
  split
  next commands h => simpa using (Option.filter_eq_some_iff.1 h).2
  next =>
    rw [commandsForOtherShells]
    split
    next commands h => simpa using (Option.filter_eq_some_iff.1 h).2
    next => split <;> simp

theorem matches_fallback_ne_nil (policy : Policy) (cmd : List Text) (fallback : List Text → Decision) :
    policy.matchesForCommandWithOptions host cmd (some fallback) Policy.resolving ≠ [] := by
  rw [Policy.matches_fallback]
  split
  next => exact List.cons_ne_nil _ _
  next h => exact mt (Policy.matches_eq_nil_iff host policy cmd).1 h

variable {host shell}

variable {matched : List RuleMatch} {evaluation : Evaluation}

theorem fromMatches_decision
    (h : Evaluation.fromMatches matched = some evaluation) : (matched.map RuleMatch.decision).max? = some evaluation.decision := by
  obtain ⟨decision, hmax, rfl⟩ := Option.map_eq_some_iff.1 h
  exact hmax

theorem fromMatches_matchedRules
    (h : Evaluation.fromMatches matched = some evaluation) : evaluation.matchedRules = matched := by
  obtain ⟨decision, -, rfl⟩ := Option.map_eq_some_iff.1 h
  rfl

theorem fromMatches_allow (h : Evaluation.fromMatches matched = some evaluation) :
    evaluation.decision = .allow ↔ ∀ ruleMatch ∈ matched, ruleMatch.decision = .allow := by
  have hmax := fromMatches_decision h
  constructor
  · intro ha ruleMatch hm
    rw [ha] at hmax
    exact Decision.le_allow_iff.1 (le_of_max?_eq_some hmax (List.mem_map_of_mem hm))
  · intro hall
    obtain ⟨ruleMatch, hm, hd⟩ := List.mem_map.1 (List.max?_mem hmax)
    rw [← hd]
    exact hall ruleMatch hm

variable {policy : Policy} {commands : List (List Text)}

/-- So every rule that applies to a segment allows it, and so does the fallback where none applies. -/
theorem segment_allow {fallback : List Text → Decision}
    (he : policy.checkMultipleWithOptions host commands fallback Policy.resolving = some evaluation)
    (ha : evaluation.decision = .allow) {cmd} (hc : cmd ∈ commands) :
    (∀ rule ∈ policy.applicableRules host cmd, rule.decision = .allow) ∧
      (policy.applicableRules host cmd = [] → fallback cmd = .allow) := by
  have hall : ∀ ruleMatch ∈ policy.matchesForCommandWithOptions host cmd (some fallback) Policy.resolving,
      ruleMatch.decision = .allow := fun ruleMatch hm =>
    (fromMatches_allow he).1 ha ruleMatch (List.mem_flatMap.2 ⟨cmd, hc, hm⟩)
  rw [Policy.matches_fallback] at hall
  constructor
  · intro rule hrule
    rw [if_neg (List.ne_nil_of_mem hrule)] at hall
    have hmem : rule.decision ∈ (policy.matchesForCommandWithOptions host cmd none Policy.resolving).map RuleMatch.decision := by
      rw [Policy.decisions_matches]
      exact List.mem_map_of_mem hrule
    obtain ⟨ruleMatch, hm, hd⟩ := List.mem_map.1 hmem
    rw [← hd]
    exact hall ruleMatch hm
  · intro hnil
    rw [if_pos hnil] at hall
    exact hall _ (List.mem_singleton_self _)

theorem segment_bypass
    (h : bypassesSandbox host policy commands Policy.resolving = true) {cmd} (hc : cmd ∈ commands) :
    ∃ rule ∈ policy.applicableRules host cmd, rule.decision = .allow := by
  have hany := List.all_eq_true.1 h cmd hc
  obtain ⟨ruleMatch, hm, hallow⟩ := List.any_eq_true.1 hany
  have hd : ruleMatch.decision = .allow := eq_of_beq (Bool.and_eq_true_iff.1 hallow).2
  have hmem : ruleMatch.decision ∈ (policy.applicableRules host cmd).map PrefixRule.decision := by
    rw [← Policy.decisions_matches]
    exact List.mem_map_of_mem hm
  obtain ⟨rule, hrule, heq⟩ := List.mem_map.1 hmem
  exact ⟨rule, hrule, heq.trans hd⟩

variable (host shell)

theorem checkMultiple_isSome (hne : commands ≠ []) (fallback : List Text → Decision) :
    ∃ evaluation, policy.checkMultipleWithOptions host commands fallback Policy.resolving = some evaluation := by
  obtain ⟨cmd, rest, rfl⟩ := List.exists_cons_of_ne_nil hne
  have hmatched : (cmd :: rest).flatMap (fun command =>
      policy.matchesForCommandWithOptions host command (some fallback) Policy.resolving) ≠ [] := by
    exact List.append_ne_nil_of_left_ne_nil (matches_fallback_ne_nil host policy cmd fallback) _
  obtain ⟨d, hd⟩ := exists_max?_eq_some (List.map_eq_nil_iff.not.2 hmatched)
  exact ⟨_, by rw [Policy.checkMultipleWithOptions, Evaluation.fromMatches, hd]; rfl⟩

theorem promptRequirement_ne_skip (req : ExecApprovalRequest) (segments : ExecPolicyCommands) (evaluation : Evaluation)
    (requested amendment : Option ExecPolicyAmendment) (bypassSandbox : Bool) :
    promptRequirement shell req segments evaluation requested ≠ .skip bypassSandbox amendment := by
  rw [promptRequirement]
  split
  · split <;> exact fun h => by cases h
  · exact fun h => by cases h

/-- **Approval is never skipped past a stricter rule**: every rule that applies to a segment allows it, and the
heuristics allow the others. -/
theorem createExecApprovalRequirement_skip (policy : Policy) (req : ExecApprovalRequest) :
    ∃ requirement, createExecApprovalRequirementForCommand host shell policy req = some requirement ∧
      ∀ bypassSandbox amendment, requirement = .skip bypassSandbox amendment →
        ∀ segment ∈ (commandsForExecPolicy host shell req.command).commands,
          (∀ rule ∈ policy.applicableRules host segment, rule.decision = .allow) ∧
          (policy.applicableRules host segment = [] →
            renderDecisionForUnmatchedCommand host shell (req.context (commandsForExecPolicy host shell req.command))
              segment = .allow) ∧
          (bypassSandbox = true → ∃ rule ∈ policy.applicableRules host segment, rule.decision = .allow) := by
  obtain ⟨evaluation, he⟩ := @checkMultiple_isSome host policy _ (commandsForExecPolicy_ne_nil host shell req.command)
    (renderDecisionForUnmatchedCommand host shell (req.context (commandsForExecPolicy host shell req.command)))
  have hcreate := he
  rw [Policy.resolving] at hcreate
  refine ⟨_, by rw [createExecApprovalRequirementForCommand, hcreate]; rfl, fun bypassSandbox amendment hskip segment hs => ?_⟩
  cases hd : evaluation.decision with
  | forbidden => rw [hd] at hskip; cases hskip
  | prompt =>
    rw [hd] at hskip
    exact absurd hskip (promptRequirement_ne_skip shell _ _ _ _ _ _)
  | allow =>
    rw [hd] at hskip
    obtain ⟨hrules, hfallback⟩ := segment_allow he hd hs
    refine ⟨hrules, hfallback, fun hb => ?_⟩
    have hbypass := (ExecApprovalRequirement.skip.inj hskip).1
    exact segment_bypass (hbypass.trans hb) hs

end

end Codex.ExecPolicy
