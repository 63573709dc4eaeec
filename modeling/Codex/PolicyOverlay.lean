/-
What a requirements overlay guarantees when it is merged over a user's policy
(`Policy::merge_overlay`). Rules are appended, so where an exact rule of the
overlay matches a command its decision is among those the merged policy takes
the strictest of. A basename rule of the overlay has no such hold: an exact
rule of the base keeps it from being tried at all, and so does a
`host_executable` entry of the base that leaves the program out.
-/
import Codex.ExecPolicy

namespace Codex.ExecPolicy

open Text

variable {ds : List Decision} {policy : Policy} {e : Evaluation}

theorem le_of_max?_eq_some {d e} (he : ds.max? = some e) (hd : d ∈ ds) : d ≤ e :=
  (List.max?_eq_some_iff.1 he).2 d hd

theorem mem_of_max?_eq_some {e} (he : ds.max? = some e) : e ∈ ds :=
  (List.max?_eq_some_iff.1 he).1

theorem exists_max?_eq_some (h : ds ≠ []) : ∃ e, ds.max? = some e :=
  Option.isSome_iff_exists.1 (List.isSome_max?_of_ne_nil h)

namespace Policy

/-- The decision on a command: the strictest of the rules that apply, or the fallback's. -/
theorem check_decision (host : Host) (policy : Policy) (cmd : List Text) (fallback : List Text → Decision) :
    ∃ e, policy.checkWithOptions host cmd fallback resolving = some e ∧
      if policy.applicableRules host cmd = [] then e.decision = fallback cmd
      else ((policy.applicableRules host cmd).map PrefixRule.decision).max? = some e.decision := by
  rw [checkWithOptions, matches_fallback]
  by_cases h : policy.applicableRules host cmd = []
  · rw [if_pos h]
    exact ⟨_, rfl, by rw [if_pos h]; rfl⟩
  · obtain ⟨e, he⟩ := exists_max?_eq_some (List.map_eq_nil_iff.not.2 h)
    rw [if_neg h, Evaluation.fromMatches, decisions_matches, he]
    exact ⟨_, rfl, by rw [if_neg h]⟩

/-! ## The merged policy -/

theorem exactRules_mergeOverlay (base overlay : Policy) (cmd : List Text) :
    (base.mergeOverlay overlay).exactRules cmd = base.exactRules cmd ++ overlay.exactRules cmd := by
  cases cmd with
  | nil => rfl
  | cons first args => simp [exactRules, mergeOverlay, MultiMap.vals_extendAll]

/-- The overlay's entry for a name replaces the base's. -/
theorem lists_mergeOverlay (base overlay : Policy) (program : AbsolutePath) (basename : Text) :
    (base.mergeOverlay overlay).ListsProgram program basename ↔
      overlay.ListsProgram program basename ∧
        (overlay.hostExecutablesByName.lookup basename = none → base.ListsProgram program basename) := by
  rw [ListsProgram, mergeOverlay]
  cases ho : overlay.hostExecutablesByName.lookup basename with
  | none =>
    rw [AList.lookup_union_right (AList.lookup_eq_none.1 ho)]
    simp [ListsProgram, ho]
  | some paths =>
    rw [AList.lookup_union_left (AList.lookup_isSome.1 (by rw [ho]; rfl))]
    simp [ListsProgram, ho]

theorem hostRules_mergeOverlay {host : Host} {base overlay : Policy} {cmd program}
    {basename : Text} (hp : resolvedProgram host cmd = some (program, basename))
    (hl : (base.mergeOverlay overlay).ListsProgram program basename) :
    ∃ rules, (base.mergeOverlay overlay).hostRules host cmd = rules ++ overlay.hostRules host cmd := by
  rw [hostRules, hp]
  simp only [if_pos hl]
  have ho := ((lists_mergeOverlay ..).1 hl).1
  refine ⟨(base.rulesByProgram.vals basename).filter fun rule => (rule.matchesCommand (basename :: cmd.tail)).isSome, ?_⟩
  rw [hostRules, hp, mergeOverlay, MultiMap.vals_extendAll, List.filter_append]
  simp only [if_pos ho]

theorem hostRules_of_hidden {host : Host} {cmd program}
    {basename : Text} (hp : resolvedProgram host cmd = some (program, basename))
    (hl : ¬ policy.ListsProgram program basename) : policy.hostRules host cmd = [] := by
  rw [hostRules, hp]
  exact if_neg hl

/-! ## When the overlay's decision holds -/

/-- The base's `host_executable` entry for the command's basename leaves the program out, and
the overlay has no entry of its own for it. -/
def HidesProgram (host : Host) (base overlay : Policy) (cmd : List Text) : Prop :=
  ∃ program basename, resolvedProgram host cmd = some (program, basename) ∧
    overlay.hostExecutablesByName.lookup basename = none ∧ ¬ base.ListsProgram program basename

/-- An exact rule of the overlay matches; or exact rules of the base are as strict as `d`; or none of the base's matches,
and either its host executables do not hide the program or the fallback is as strict as `d`. -/
def OverlayHolds (host : Host) (base overlay : Policy) (cmd : List Text) (fallback : List Text → Decision)
    (d : Decision) : Prop :=
  overlay.exactRules cmd ≠ [] ∨ (∃ rule ∈ base.exactRules cmd, d ≤ rule.decision) ∨
    base.exactRules cmd = [] ∧ (¬ HidesProgram host base overlay cmd ∨ d ≤ fallback cmd)

variable {host : Host} {base overlay : Policy} {cmd : List Text} {fallback : List Text → Decision} {d : Decision}

/-- A decision among those of the rules that apply is at most the strictest. -/
theorem le_decision_iff
    (he : policy.checkWithOptions host cmd fallback resolving = some e) (hne : policy.applicableRules host cmd ≠ []) :
    d ≤ e.decision ↔ ∃ rule ∈ policy.applicableRules host cmd, d ≤ rule.decision := by
  obtain ⟨e', he', hd⟩ := check_decision host policy cmd fallback
  obtain rfl := Option.some.inj (he.symm.trans he')
  rw [if_neg hne] at hd
  constructor
  · intro hle
    obtain ⟨rule, hrule, heq⟩ := List.mem_map.1 (mem_of_max?_eq_some hd)
    exact ⟨rule, hrule, heq ▸ hle⟩
  · rintro ⟨rule, hrule, hle⟩
    exact hle.trans (le_of_max?_eq_some hd (List.mem_map_of_mem hrule))

theorem decision_of_no_rules
    (he : policy.checkWithOptions host cmd fallback resolving = some e) (hnil : policy.applicableRules host cmd = []) :
    e.decision = fallback cmd := by
  obtain ⟨e', he', hd⟩ := check_decision host policy cmd fallback
  obtain rfl := Option.some.inj (he.symm.trans he')
  rwa [if_pos hnil] at hd

/-- Where neither policy has an exact match, the overlay's basename rules are reached exactly
when the base does not hide the program. -/
theorem le_decision_hostRules {rule}
    (he : (base.mergeOverlay overlay).checkWithOptions host cmd fallback resolving = some e)
    (hb : base.exactRules cmd = []) (ho : overlay.exactRules cmd = [])
    (hrule : rule ∈ overlay.hostRules host cmd) (hd : rule.decision = d) :
    d ≤ e.decision ↔ ¬ HidesProgram host base overlay cmd ∨ d ≤ fallback cmd := by
  obtain ⟨program, basename, hp, hlo⟩ : ∃ program basename,
      resolvedProgram host cmd = some (program, basename) ∧ overlay.ListsProgram program basename := by
    rw [hostRules] at hrule
    split at hrule
    · cases hrule
    next program basename hp =>
      split at hrule
      next hl => exact ⟨program, basename, hp, hl⟩
      · cases hrule
  have hmerged : (base.mergeOverlay overlay).applicableRules host cmd =
      (base.mergeOverlay overlay).hostRules host cmd := by
    rw [applicableRules, exactRules_mergeOverlay, hb, ho, List.append_nil, if_pos rfl]
  by_cases hl : (base.mergeOverlay overlay).ListsProgram program basename
  · have hnot : ¬ HidesProgram host base overlay cmd := by
      rintro ⟨program', basename', hp', hnone, hhides⟩
      obtain ⟨rfl, rfl⟩ := Prod.mk.inj (Option.some.inj (hp.symm.trans hp'))
      exact hhides (((lists_mergeOverlay ..).1 hl).2 hnone)
    obtain ⟨rules, hrules⟩ := hostRules_mergeOverlay hp hl
    have hmem : rule ∈ (base.mergeOverlay overlay).applicableRules host cmd := by
      rw [hmerged, hrules]
      exact List.mem_append_right _ hrule
    exact iff_of_true ((le_decision_iff he (List.ne_nil_of_mem hmem)).2 ⟨rule, hmem, hd.ge⟩) (.inl hnot)
  · have hhides : HidesProgram host base overlay cmd := by
      rw [lists_mergeOverlay, not_and] at hl
      exact ⟨program, basename, hp, Classical.not_imp.1 (hl hlo)⟩
    rw [decision_of_no_rules he (hmerged.trans (hostRules_of_hidden hp hl))]
    simp [hhides]

/-- **When an overlay cannot be weakened.** The merged policy's decision on a command is at least
the strictest decision of the overlay's own rules exactly when `OverlayHolds`. -/
theorem mergeOverlay_strict_iff (host : Host) (base overlay : Policy) (cmd : List Text)
    (fallback : List Text → Decision) (d : Decision)
    (h : ((overlay.matchesForCommandWithOptions host cmd none resolving).map RuleMatch.decision).max? = some d) :
    (∃ e, (base.mergeOverlay overlay).checkWithOptions host cmd fallback resolving = some e ∧ d ≤ e.decision) ↔
      OverlayHolds host base overlay cmd fallback d := by
  obtain ⟨e, he, -⟩ := check_decision host (base.mergeOverlay overlay) cmd fallback
  have hex : (∃ e, (base.mergeOverlay overlay).checkWithOptions host cmd fallback resolving = some e ∧
      d ≤ e.decision) ↔ d ≤ e.decision := by simp [he]
  rw [hex]
  rw [decisions_matches] at h
  obtain ⟨rule, hrule, hd⟩ := List.mem_map.1 (mem_of_max?_eq_some h)
  by_cases ho : overlay.exactRules cmd = []
  · rw [applicableRules, if_pos ho] at hrule
    by_cases hb : base.exactRules cmd = []
    · rw [le_decision_hostRules he hb ho hrule hd]
      simp [OverlayHolds, ho, hb]
    · -- an exact rule of the base keeps the overlay's basename rules from being tried
      have hmerged : (base.mergeOverlay overlay).applicableRules host cmd = base.exactRules cmd := by
        rw [applicableRules, exactRules_mergeOverlay, ho, List.append_nil, if_neg hb]
      rw [le_decision_iff he (hmerged ▸ hb), hmerged]
      simp [OverlayHolds, ho, hb]
  · rw [applicableRules, if_neg ho] at hrule
    have hmem : rule ∈ (base.mergeOverlay overlay).applicableRules host cmd := by
      rw [applicableRules, exactRules_mergeOverlay, if_neg (by simp [ho])]
      exact List.mem_append_right _ hrule
    exact iff_of_true ((le_decision_iff he (List.ne_nil_of_mem hmem)).2 ⟨rule, hmem, hd.ge⟩) (.inl ho)

/-! ## A user's allow rule for a path -/

def gitPath : Text := "/usr/bin/git".toList

/-- The policy with one rule for a one-token pattern. -/
def oneRule (program : Text) (decision : Decision) : Policy :=
  { Policy.empty with
    rulesByProgram := MultiMap.empty.insert program
      { pattern := { first := program, rest := [] }, decision, justification := none } }

/-- A base that names the same program leaves the overlay's prohibition in force. -/
theorem mergeOverlay_strict_git :
    (∃ e, ((oneRule "git".toList .allow).mergeOverlay (oneRule "git".toList .forbidden)).checkWithOptions
      (unixHost none none) [gitPath, "push".toList] (fun _ => .allow) resolving = some e ∧ .forbidden ≤ e.decision) ∧
    OverlayHolds (unixHost none none) (oneRule "git".toList .allow) (oneRule "git".toList .forbidden)
      [gitPath, "push".toList] (fun _ => .allow) .forbidden := by
  have hov : OverlayHolds (unixHost none none) (oneRule "git".toList .allow) (oneRule "git".toList .forbidden)
      [gitPath, "push".toList] (fun _ => .allow) .forbidden := by
    refine .inr (.inr ⟨by decide +kernel, .inl ?_⟩)
    rintro ⟨program, basename, -, -, hnot⟩
    exact hnot fun paths hp => by cases hp
  exact ⟨(mergeOverlay_strict_iff _ _ _ _ _ _ (by decide +kernel)).2 hov, hov⟩

/-- The overlay forbids `git` by its name and so `/usr/bin/git push`; the base allows
`/usr/bin/git` by its path, and the merged policy allows the command. -/
theorem mergeOverlay_weakened :
    (((oneRule "git".toList .forbidden).matchesForCommandWithOptions (unixHost none none) [gitPath, "push".toList]
      none resolving).map RuleMatch.decision).max? = some .forbidden ∧
    ¬ ∃ e, ((oneRule gitPath .allow).mergeOverlay (oneRule "git".toList .forbidden)).checkWithOptions
      (unixHost none none) [gitPath, "push".toList] (fun _ => .allow) resolving = some e ∧ .forbidden ≤ e.decision := by
  refine ⟨by decide +kernel, ?_⟩
  rintro ⟨e, he, hle⟩
  have hallow : ((oneRule gitPath .allow).mergeOverlay (oneRule "git".toList .forbidden)).checkWithOptions
      (unixHost none none) [gitPath, "push".toList] (fun _ => .allow) resolving =
        some { decision := .allow, matchedRules := [.prefixRuleMatch [gitPath] .allow none none] } := by decide +kernel
  obtain rfl := Option.some.inj (he.symm.trans hallow)
  exact absurd hle (by decide)

end Policy

end Codex.ExecPolicy
