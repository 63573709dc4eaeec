/-
An amendment the user approved (`append_amendment_and_update` of `core/src/exec_policy.rs`,
with the append of `execpolicy/src/amend.rs`). A proposed prefix rule is tried out on a copy of
the policy (`approved_of_requested`), and with the rule in the policy the request is skipped
(`skip_of_approved`). The update adds the rule only where the policy does not already allow the
rule's own words as a command (`AlreadyAllows`), so the amendment takes effect exactly there.
-/
import Codex.ExecApproval

namespace Codex.ExecPolicy

/-! ## The update -/

/-- The other errors of an append are the file system's. -/
inductive AmendError (E : Type) where
  | emptyPrefix
  | file (error : E)
  deriving DecidableEq, Repr

inductive ExecPolicyUpdateError (E : Type) where
  | appendRule (source : AmendError E)
  | addRule (message : String)
  deriving DecidableEq, Repr

/-- `appended` is what the file system answers. -/
def blockingAppendAllowPrefixRule {E : Type} (appended : Except E Unit) (tokens : List Text) : Except (AmendError E) Unit :=
  if tokens.isEmpty then .error .emptyPrefix else appended.mapError .file

variable (host : Host)

/-- The local `already_allowed`; none is the panic of `Evaluation::from_matches`. -/
def alreadyAllowed (policy : Policy) (command : List Text) : Option Bool :=
  (policy.checkMultipleWithOptions host [command] (fun _ => .forbidden) { resolveHostExecutables := true }).map fun evaluation =>
    evaluation.decision == .allow &&
      evaluation.matchedRules.any fun ruleMatch => isPolicyMatch ruleMatch && ruleMatch.decision == .allow

/-- The policy in memory after the update; the lock is not modelled. -/
def appendAmendmentAndUpdate {E : Type} (appended : Except E Unit) (policy : Policy) (amendment : ExecPolicyAmendment) :
    Option (Except (ExecPolicyUpdateError E) Policy) :=
  match blockingAppendAllowPrefixRule appended amendment.command with
  | .error source => some (.error (.appendRule source))
  | .ok () => (alreadyAllowed host policy amendment.command).map fun allowed =>
      if allowed then .ok policy else (policy.addPrefixRule amendment.command .allow).mapError .addRule

/-- Rules apply to the words, and all of them allow. -/
def AlreadyAllows (policy : Policy) (command : List Text) : Prop :=
  policy.applicableRules host command ≠ [] ∧ ∀ rule ∈ policy.applicableRules host command, rule.decision = .allow

variable {host} {policy : Policy} {command : List Text}

variable {ruleMatch : RuleMatch}

theorem isPolicyMatch_of_matchesCommand {rule : PrefixRule}
    (h : rule.matchesCommand command = some ruleMatch) : isPolicyMatch ruleMatch = true := by
  obtain ⟨matchedPrefix, -, rfl⟩ := Option.map_eq_some_iff.1 h
  rfl

theorem isPolicyMatch_exact (h : ruleMatch ∈ (policy.matchExactRules command).getD []) :
    isPolicyMatch ruleMatch = true := by
  cases command with
  | nil => cases h
  | cons first args =>
    simp only [Policy.matchExactRules, List.head?_cons, Option.map_some, Option.getD_some] at h
    cases hvec : policy.rulesByProgram.getVec first with
    | none => rw [hvec] at h; cases h
    | some rules =>
      rw [hvec] at h
      obtain ⟨rule, -, hm⟩ := List.mem_filterMap.1 h
      exact isPolicyMatch_of_matchesCommand hm

theorem isPolicyMatch_host (h : ruleMatch ∈ policy.matchHostExecutableRules host command) :
    isPolicyMatch ruleMatch = true := by
  unfold Policy.matchHostExecutableRules at h
  repeat' split at h
  any_goals cases h
  obtain ⟨matched, hm, rfl⟩ := List.mem_map.1 h
  obtain ⟨rule, -, hm⟩ := List.mem_filterMap.1 hm
  obtain ⟨matchedPrefix, -, rfl⟩ := Option.map_eq_some_iff.1 hm
  rfl

theorem isPolicyMatch_of_mem
    (h : ruleMatch ∈ policy.matchesForCommandWithOptions host command none Policy.resolving) : isPolicyMatch ruleMatch = true := by
  rw [Policy.matches_none, Policy.matchedRules] at h
  cases he : (policy.matchExactRules command).filter (!·.isEmpty) with
  | some matched =>
    rw [he] at h
    exact isPolicyMatch_exact (by rw [(Option.filter_eq_some_iff.1 he).1]; exact h)
  | none =>
    rw [he] at h
    simp only [Policy.resolving, if_true, Option.orElse_none] at h
    rw [Option.filter_some] at h
    split at h
    · exact isPolicyMatch_host h
    · cases h

theorem alreadyAllowed_eq (host : Host) (policy : Policy) (command : List Text) :
    ∃ allowed, alreadyAllowed host policy command = some allowed ∧ (allowed = true ↔ AlreadyAllows host policy command) := by
  obtain ⟨evaluation, he⟩ := @checkMultiple_isSome host policy _ (List.cons_ne_nil command []) (fun _ => .forbidden)
  have hsome := he
  rw [Policy.resolving] at hsome
  refine ⟨_, by rw [alreadyAllowed, hsome]; rfl, ?_⟩
  rw [Bool.and_eq_true, beq_iff_eq]
  constructor
  · intro h
    obtain ⟨hrules, hfallback⟩ := segment_allow he h.1 (List.mem_singleton_self command)
    exact ⟨fun hnil => Decision.noConfusion (hfallback hnil), hrules⟩
  · intro h
    obtain ⟨hne, hrules⟩ := h
    have hmatched : evaluation.matchedRules = policy.matchesForCommandWithOptions host command none Policy.resolving := by
      rw [fromMatches_matchedRules he, List.flatMap_singleton, Policy.matches_fallback, if_neg hne]
    have hallow : ∀ ruleMatch ∈ evaluation.matchedRules, ruleMatch.decision = .allow := by
      intro ruleMatch hm
      rw [hmatched] at hm
      have hmem := List.mem_map_of_mem (f := RuleMatch.decision) hm
      rw [Policy.decisions_matches] at hmem
      obtain ⟨rule, hrule, hd⟩ := List.mem_map.1 hmem
      rw [← hd]
      exact hrules rule hrule
    refine ⟨(fromMatches_allow he).2 ((fromMatches_matchedRules he) ▸ hallow), ?_⟩
    obtain ⟨ruleMatch, hm⟩ := List.exists_mem_of_ne_nil _ (mt (Policy.matches_eq_nil_iff host policy command).1 hne)
    rw [← hmatched] at hm
    refine List.any_eq_true.2 ⟨ruleMatch, hm, ?_⟩
    rw [isPolicyMatch_of_mem (hmatched ▸ hm), hallow ruleMatch hm]
    rfl

variable {shell : ShellCommands} {req : ExecApprovalRequest}

/-- The amendment that `create_exec_approval_requirement_for_command` derives from the request's prefix rule. -/
def requestedAmendment (host : Host) (shell : ShellCommands) (policy : Policy) (req : ExecApprovalRequest) :
    Option ExecPolicyAmendment := do
  let segments := commandsForExecPolicy host shell req.command
  let fallback := renderDecisionForUnmatchedCommand host shell (req.context segments)
  let options : MatchOptions := { resolveHostExecutables := true }
  let evaluation ← policy.checkMultipleWithOptions host segments.commands fallback options
  deriveRequestedExecpolicyAmendmentFromPrefixRule host req.prefixRule evaluation.matchedRules policy segments.commands
    fallback options

/-- The policy allows each segment of the request, by a rule or by the fallback. -/
def AllowsSegments (host : Host) (shell : ShellCommands) (policy : Policy) (req : ExecApprovalRequest) : Prop :=
  ∀ segment ∈ (commandsForExecPolicy host shell req.command).commands, ∃ evaluation, policy.checkWithOptions host segment
    (renderDecisionForUnmatchedCommand host shell (req.context (commandsForExecPolicy host shell req.command)))
    Policy.resolving = some evaluation ∧ evaluation.decision = .allow

theorem approved_of_requested {amendment} (h : requestedAmendment host shell policy req = some amendment) :
    ∃ updated, policy.addPrefixRule amendment.command .allow = .ok updated ∧ AllowsSegments host shell updated req := by
  obtain ⟨evaluation, -, h⟩ := Option.bind_eq_some_iff.1 h
  unfold deriveRequestedExecpolicyAmendmentFromPrefixRule at h
  repeat' split at h
  any_goals cases h
  next tried =>
    rw [prefixRuleWouldApproveAllCommands] at tried
    split at tried
    · cases tried
    next updated hadd =>
      refine ⟨updated, hadd, fun segment hs => ?_⟩
      obtain ⟨e, he, hd⟩ := (Option.any_eq_true _ _).1 (List.all_eq_true.1 tried segment hs)
      exact ⟨e, he, eq_of_beq hd⟩

theorem skip_of_approved (h : AllowsSegments host shell policy req) :
    ∃ bypassSandbox proposed, createExecApprovalRequirementForCommand host shell policy req =
      some (.skip bypassSandbox proposed) := by
  obtain ⟨evaluation, he⟩ := @checkMultiple_isSome host policy _ (commandsForExecPolicy_ne_nil host shell req.command)
    (renderDecisionForUnmatchedCommand host shell (req.context (commandsForExecPolicy host shell req.command)))
  have ha : evaluation.decision = .allow := by
    refine (fromMatches_allow he).2 fun ruleMatch hm => ?_
    obtain ⟨segment, hs, hm⟩ := List.mem_flatMap.1 hm
    obtain ⟨e, hcheck, hd⟩ := h segment hs
    exact (fromMatches_allow hcheck).1 hd ruleMatch hm
  rw [Policy.resolving] at he
  rw [createExecApprovalRequirementForCommand, he]
  simp only [Option.bind_eq_bind, Option.bind_some, ha]
  exact ⟨_, _, rfl⟩

/-- **An approved amendment takes effect exactly where the update adds it.** -/
theorem approvedAmendment_skip_iff {E : Type} {reason : Option Text} {amendment : ExecPolicyAmendment}
    (hneeds : createExecApprovalRequirementForCommand host shell policy req = some (.needsApproval reason (some amendment)))
    (hrequested : requestedAmendment host shell policy req = some amendment) :
    ∃ updated, appendAmendmentAndUpdate host (.ok () : Except E Unit) policy amendment = some (.ok updated) ∧
      ((∃ bypassSandbox proposed, createExecApprovalRequirementForCommand host shell updated req =
        some (.skip bypassSandbox proposed)) ↔ ¬ AlreadyAllows host policy amendment.command) := by
  obtain ⟨updated, hadd, happroved⟩ := approved_of_requested hrequested
  have hne : amendment.command.isEmpty = false := by
    cases hc : amendment.command with
    | nil => rw [hc] at hadd; cases hadd
    | cons => rfl
  obtain ⟨allowed, hallowed, hiff⟩ := alreadyAllowed_eq host policy amendment.command
  have happend : blockingAppendAllowPrefixRule (.ok () : Except E Unit) amendment.command = .ok () := by
    rw [blockingAppendAllowPrefixRule, hne]
    rfl
  rw [appendAmendmentAndUpdate, happend, ← hiff]
  simp only [hallowed, Option.map_some]
  cases allowed with
  | true =>
    refine ⟨policy, rfl, fun hskip => ?_, fun h => absurd rfl h⟩
    obtain ⟨bypassSandbox, proposed, hskip⟩ := hskip
    rw [hneeds] at hskip
    cases hskip
  | false =>
    refine ⟨updated, by rw [hadd]; rfl, fun _ => Bool.false_ne_true, fun _ => skip_of_approved happroved⟩

/-- A shell of plain words: there is nothing to parse, and no word is dangerous or known safe. -/
def plainWords : ShellCommands where
  parseShellLcPlainCommands := fun _ => none
  parsePowershellCommandIntoPlainCommands := fun _ => none
  parseShellLcSingleCommandPrefix := fun _ => none
  dangerousCommandMatch := fun _ => none
  dangerousPowershellWordsMatch := fun _ => none
  isKnownSafeCommand := fun _ => false
  isSafePowershellWords := fun _ => false
  shlexTryJoin := fun _ => none

def escalated (command proposed : List Text) : ExecApprovalRequest where
  command := command
  approvalPolicy := .onRequest
  permissionProfile := .managed (.restricted [])
  windowsSandboxLevel := .disabled
  sandboxPermissions := .requireEscalated
  prefixRule := some proposed

def cargoBuild : List Text := ["cargo".toList, "build".toList]

theorem approvedAmendment_cargo : ∃ updated,
    appendAmendmentAndUpdate (unixHost none none) (.ok () : Except Unit Unit) .empty ⟨cargoBuild⟩ = some (.ok updated) ∧
      ∃ bypassSandbox proposed, createExecApprovalRequirementForCommand (unixHost none none) plainWords updated
        (escalated (cargoBuild ++ ["--release".toList]) cargoBuild) = some (.skip bypassSandbox proposed) := by
  obtain ⟨updated, happend, hiff⟩ := @approvedAmendment_skip_iff (unixHost none none) .empty plainWords
    (escalated (cargoBuild ++ ["--release".toList]) cargoBuild) Unit none ⟨cargoBuild⟩ (by decide +kernel) (by decide +kernel)
  exact ⟨updated, happend, hiff.2 fun h => h.1 (by decide +kernel)⟩

def meStatus : Policy :=
  { Policy.empty with
    rulesByProgram := MultiMap.empty.insert "me".toList
      { pattern := { first := "me".toList, rest := [.single "status".toList] }, decision := .allow, justification := none } }

def homeStatus : ExecPolicyAmendment := ⟨["~".toList, "status".toList]⟩

def meHost : Host := unixHost (some "/home/me".toList) (some "/work".toList)

/-- The word `~` alone is read as the home directory, so the rule of `me` allows it; the program
`/opt/~` is none of that rule's, and is asked about again. -/
theorem homeAmendment_not_skip :
    createExecApprovalRequirementForCommand meHost plainWords meStatus
        (escalated ["/opt/~".toList, "status".toList] homeStatus.command) = some (.needsApproval none (some homeStatus)) ∧
      requestedAmendment meHost plainWords meStatus
        (escalated ["/opt/~".toList, "status".toList] homeStatus.command) = some homeStatus ∧
      ∃ updated, appendAmendmentAndUpdate meHost (.ok () : Except Unit Unit) meStatus homeStatus = some (.ok updated) ∧
        createExecApprovalRequirementForCommand meHost plainWords updated
          (escalated ["/opt/~".toList, "status".toList] homeStatus.command) = some (.needsApproval none (some homeStatus)) := by
  have hallowed : alreadyAllowed meHost meStatus homeStatus.command = some true := by decide +kernel
  refine ⟨by decide +kernel, by decide +kernel, meStatus, ?_, by decide +kernel⟩
  rw [appendAmendmentAndUpdate]
  simp only [hallowed]
  rfl

/-! ## Runs of updates -/

/-- Nothing but rules that allow is new. -/
def Widens (rules updated : List PrefixRule) : Prop :=
  rules ⊆ updated ∧ ∀ rule ∈ updated, rule.decision = .allow ∨ rule ∈ rules

theorem Widens.refl (rules : List PrefixRule) : Widens rules rules := ⟨List.Subset.refl rules, fun _ => .inr⟩

theorem Widens.filter {rules updated} (h : Widens rules updated) (f : PrefixRule → Bool) :
    Widens (rules.filter f) (updated.filter f) := by
  refine ⟨List.filter_subset f h.1, fun rule hrule => ?_⟩
  obtain ⟨hmem, hf⟩ := List.mem_filter.1 hrule
  exact (h.2 rule hmem).imp_right fun hold => List.mem_filter.2 ⟨hold, hf⟩

structure Loosened (policy updated : Policy) : Prop where
  hosts : updated.hostExecutablesByName = policy.hostExecutablesByName
  rules : ∀ name, Widens (policy.rulesByProgram.vals name) (updated.rulesByProgram.vals name)

variable {updated : Policy}

theorem Loosened.trans {next} (h : Loosened policy updated) (h' : Loosened updated next) : Loosened policy next := by
  refine ⟨h'.hosts.trans h.hosts, fun name => ⟨List.Subset.trans (h.rules name).1 (h'.rules name).1, fun rule hrule => ?_⟩⟩
  exact ((h'.rules name).2 rule hrule).elim .inl ((h.rules name).2 rule)

theorem loosened_addPrefixRule {tokens} (h : policy.addPrefixRule tokens .allow = .ok updated) : Loosened policy updated := by
  cases tokens with
  | nil => cases h
  | cons first rest =>
    cases h
    refine ⟨rfl, fun name => ?_⟩
    rw [MultiMap.vals_insert]
    split
    · refine ⟨List.subset_append_left _ _, fun rule hrule => ?_⟩
      rcases List.mem_append.1 hrule with hold | hnew
      · exact .inr hold
      · exact .inl (congrArg PrefixRule.decision (List.mem_singleton.1 hnew))
    · exact .refl _

theorem Loosened.applicableRules (h : Loosened policy updated) (cmd : List Text) :
    (updated.applicableRules host cmd = [] → policy.applicableRules host cmd = []) ∧
      ∀ rule ∈ updated.applicableRules host cmd, rule.decision = .allow ∨ rule ∈ policy.applicableRules host cmd := by
  have hexact : Widens (policy.exactRules cmd) (updated.exactRules cmd) := by
    refine Widens.filter ?_ _
    cases cmd.head? with
    | none => exact .refl []
    | some first => exact h.rules first
  have hhost : Widens (policy.hostRules host cmd) (updated.hostRules host cmd) := by
    have hlists program basename : updated.ListsProgram program basename ↔ policy.ListsProgram program basename := by
      rw [Policy.ListsProgram, Policy.ListsProgram, h.hosts]
    unfold Policy.hostRules
    simp only [hlists]
    split
    · exact .refl []
    · split
      · exact (h.rules _).filter _
      · exact .refl []
  unfold Policy.applicableRules
  by_cases hnew : updated.exactRules cmd = []
  · have hold : policy.exactRules cmd = [] := List.eq_nil_of_subset_nil (hnew ▸ hexact.1)
    rw [if_pos hnew, if_pos hold]
    exact ⟨fun hnil => List.eq_nil_of_subset_nil (hnil ▸ hhost.1), hhost.2⟩
  · rw [if_neg hnew]
    refine ⟨fun hnil => absurd hnil hnew, fun rule hrule => (hexact.2 rule hrule).imp_right fun hold => ?_⟩
    rwa [if_neg (List.ne_nil_of_mem hold)]

theorem Loosened.decision_le (h : Loosened policy updated) (fallback : List Text → Decision)
    (hmatch : ruleMatch ∈ updated.matchesForCommandWithOptions host command (some fallback) Policy.resolving) :
    ∃ old ∈ policy.matchesForCommandWithOptions host command (some fallback) Policy.resolving,
      ruleMatch.decision ≤ old.decision := by
  obtain ⟨hnil, hrules⟩ := @Loosened.applicableRules host _ _ h command
  have hsome := matches_fallback_ne_nil host policy command fallback
  rw [Policy.matches_fallback] at hmatch
  split at hmatch
  next hnew =>
    rw [Policy.matches_fallback, if_pos (hnil hnew)]
    exact ⟨ruleMatch, hmatch, le_rfl⟩
  next =>
    have hdecision := List.mem_map_of_mem (f := RuleMatch.decision) hmatch
    rw [Policy.decisions_matches] at hdecision
    obtain ⟨rule, hrule, hd⟩ := List.mem_map.1 hdecision
    rcases hrules rule hrule with hallow | hold
    · obtain ⟨old, hold⟩ := List.exists_mem_of_ne_nil _ hsome
      exact ⟨old, hold, by rw [← hd, hallow]; cases old.decision <;> decide⟩
    · have hmem := List.mem_map_of_mem (f := PrefixRule.decision) hold
      rw [← Policy.decisions_matches] at hmem
      obtain ⟨old, hmatch', hd'⟩ := List.mem_map.1 hmem
      rw [Policy.matches_fallback, if_neg (List.ne_nil_of_mem hold)]
      exact ⟨old, hmatch', by rw [← hd, hd']⟩

/-- The policy in memory after an amendment, which an error leaves as it is. -/
def amended {E : Type} (host : Host) (policy : Policy) (amendment : ExecPolicyAmendment × Except E Unit) : Policy :=
  match appendAmendmentAndUpdate host amendment.2 policy amendment.1 with
  | some (.ok updated) => updated
  | _ => policy

theorem loosened_amended {E : Type} (amendment : ExecPolicyAmendment × Except E Unit) :
    Loosened policy (amended host policy amendment) := by
  have hrefl : Loosened policy policy := ⟨rfl, fun _ => .refl _⟩
  rw [amended]
  split
  next updated happend =>
    rw [appendAmendmentAndUpdate] at happend
    split at happend
    · cases happend
    obtain ⟨allowed, -, hupdate⟩ := Option.map_eq_some_iff.1 happend
    cases allowed with
    | true => cases hupdate; exact hrefl
    | false =>
      cases hadd : policy.addPrefixRule amendment.1.command .allow with
      | error e => rw [hadd] at hupdate; cases hupdate
      | ok next =>
        rw [hadd] at hupdate
        cases hupdate
        exact loosened_addPrefixRule hadd
  next => exact hrefl

/-- **Amendments never make a decision stricter**, in any run of updates, whichever of them fail. -/
theorem amendments_loosen {E : Type} (host : Host) (policy : Policy) (amendments : List (ExecPolicyAmendment × Except E Unit))
    (commands : List (List Text)) (fallback : List Text → Decision) :
    Option.Rel (fun before after => after.decision ≤ before.decision)
      (policy.checkMultipleWithOptions host commands fallback Policy.resolving)
      ((amendments.foldl (amended host) policy).checkMultipleWithOptions host commands fallback Policy.resolving) := by
  have hrun : Loosened policy (amendments.foldl (amended host) policy) := by
    induction amendments generalizing policy with
    | nil => exact ⟨rfl, fun _ => .refl _⟩
    | cons amendment amendments ih => exact (loosened_amended amendment).trans (ih _)
  cases commands with
  | nil => exact .none
  | cons first rest =>
    obtain ⟨before, hbefore⟩ := @checkMultiple_isSome host policy _ (List.cons_ne_nil first rest) fallback
    obtain ⟨after, hafter⟩ := @checkMultiple_isSome host (amendments.foldl (amended host) policy) _
      (List.cons_ne_nil first rest) fallback
    rw [hbefore, hafter]
    refine .some ?_
    obtain ⟨ruleMatch, hmem, hd⟩ := List.mem_map.1 (List.max?_mem (fromMatches_decision hafter))
    obtain ⟨command, hcommand, hmatch⟩ := List.mem_flatMap.1 hmem
    obtain ⟨old, hold, hle⟩ := hrun.decision_le fallback hmatch
    rw [← hd]
    exact hle.trans (le_of_max?_eq_some (fromMatches_decision hbefore)
      (List.mem_map_of_mem (List.mem_flatMap.2 ⟨command, hcommand, hold⟩)))

end Codex.ExecPolicy
