/-
Facts about the network policy: what a pattern is enforced as does not depend
on its case (`normalizePattern_lowercase`), what globs a compiled set consists
of (`mem_compileGlobset`), and what a configuration that was validated is known
to satisfy.
-/
import Codex.Lib.Results
import Codex.NetworkPolicy
import Mathlib.Data.List.Dedup

namespace Codex.NetworkProxy

open Results (bind_eq_ok)
open Text

variable {Hook : Type} {L : Libraries Hook}

/-! ## Case -/

variable (c : Char) {d : Char} {seen globs : List Text} {wildcard : GlobalWildcard} {patterns : List Text}
  {set : GlobSet} {config : NetworkProxyConfig Hook} {constraints : NetworkProxyConstraints}

theorem toNat_toLower : c.toLower.toNat = if 65 ≤ c.toNat ∧ c.toNat ≤ 90 then c.toNat + 32 else c.toNat := by
  unfold Char.toLower
  split
  next h =>
    have hle : 65 ≤ c.toNat ∧ c.toNat ≤ 90 := h
    rw [if_pos hle]
    have hval : (c.val + ('a'.val - 'A'.val)).toNat = c.toNat + 32 := by
      rw [UInt32.toNat_add]
      have : ('a'.val - 'A'.val).toNat = 32 := by decide
      have hsmall : c.val.toNat ≤ 90 := hle.2
      exact Nat.mod_eq_of_lt (by omega)
    exact hval
  next h =>
    have hnot : ¬ (65 ≤ c.toNat ∧ c.toNat ≤ 90) := h
    rw [if_neg hnot]

theorem toLower_toLower : c.toLower.toLower = c.toLower := by
  apply Char.toNat_inj.1
  rw [toNat_toLower, toNat_toLower]
  split
  · split <;> omega
  · rfl

/-- A character that is no letter is the lowercase of itself only. -/
theorem toLower_eq_iff {c : Char} (h : d.toNat < 65 ∨ 90 < d.toNat ∧ d.toNat < 97 ∨ 122 < d.toNat) :
    c.toLower = d ↔ c = d := by
  rw [← Char.toNat_inj, ← Char.toNat_inj, toNat_toLower]
  split <;> omega

theorem isWhitespace_toLower : isWhitespace c.toLower = isWhitespace c := by
  unfold isWhitespace
  rw [toNat_toLower]
  split
  next h =>
    rw [Bool.eq_iff_iff]
    simp only [Bool.or_eq_true, Bool.and_eq_true, decide_eq_true_eq, beq_iff_eq]
    omega
  next h => rfl

@[simp] theorem toAsciiLowercase_idem (s : Text) : toAsciiLowercase (toAsciiLowercase s) = toAsciiLowercase s := by
  unfold toAsciiLowercase
  rw [List.map_map]
  exact List.map_congr_left fun c _ => toLower_toLower c

theorem rdropWhile_lowercase {p : Char → Bool} (hp : ∀ c : Char, p c.toLower = p c) (s : Text) :
    (toAsciiLowercase s).rdropWhile p = toAsciiLowercase (s.rdropWhile p) := by
  have hcomp : p ∘ Char.toLower = p := funext hp
  unfold List.rdropWhile toAsciiLowercase
  rw [← List.map_reverse, List.dropWhile_map, hcomp, ← List.map_reverse]

theorem trim_lowercase (s : Text) : trim (toAsciiLowercase s) = toAsciiLowercase (trim s) := by
  have hcomp : isWhitespace ∘ Char.toLower = isWhitespace := funext isWhitespace_toLower
  unfold trim trimEnd trimStart
  have hstart : (toAsciiLowercase s).dropWhile isWhitespace = toAsciiLowercase (s.dropWhile isWhitespace) := by
    unfold toAsciiLowercase
    rw [List.dropWhile_map, hcomp]
  rw [hstart, rdropWhile_lowercase isWhitespace_toLower]

theorem normalizeDnsHostOrIpLiteral_lowercase (host : Text) :
    normalizeDnsHostOrIpLiteral L (toAsciiLowercase host) = normalizeDnsHostOrIpLiteral L host := by
  unfold normalizeDnsHostOrIpLiteral
  rw [toAsciiLowercase_idem]

theorem head?_lowercase {s : Text} (h : d.toNat < 65 ∨ 90 < d.toNat ∧ d.toNat < 97 ∨ 122 < d.toNat) :
    (toAsciiLowercase s).head? = some d ↔ s.head? = some d := by
  cases s with
  | nil => exact Iff.rfl
  | cons c s => simp only [toAsciiLowercase, List.map_cons, List.head?_cons, Option.some.injEq, toLower_eq_iff h]

theorem mem_lowercase {s : Text} (h : d.toNat < 65 ∨ 90 < d.toNat ∧ d.toNat < 97 ∨ 122 < d.toNat) :
    d ∈ toAsciiLowercase s ↔ d ∈ s := by
  unfold toAsciiLowercase
  rw [List.mem_map]
  constructor
  · rintro ⟨c, hc, hd⟩
    rwa [← (toLower_eq_iff h).1 hd]
  · exact fun hd => ⟨d, hd, (toLower_eq_iff h).2 rfl⟩

theorem takeWhile_lowercase {s : Text} (h : d.toNat < 65 ∨ 90 < d.toNat ∧ d.toNat < 97 ∨ 122 < d.toNat) :
    (toAsciiLowercase s).takeWhile (· ≠ d) = toAsciiLowercase (s.takeWhile (· ≠ d)) := by
  have hcomp : (fun c => decide (c ≠ d)) ∘ Char.toLower = fun c => decide (c ≠ d) := by
    funext c
    rw [Function.comp_apply, decide_eq_decide, Ne, toLower_eq_iff h]
  unfold toAsciiLowercase
  rw [List.takeWhile_map, hcomp]

theorem count_lowercase {s : Text} (h : d.toNat < 65 ∨ 90 < d.toNat ∧ d.toNat < 97 ∨ 122 < d.toNat) :
    (toAsciiLowercase s).count d = s.count d := by
  unfold toAsciiLowercase List.count
  rw [List.countP_map]
  congr 1
  funext c
  rw [Function.comp_apply, Bool.eq_iff_iff, beq_iff_eq, beq_iff_eq, toLower_eq_iff h]

theorem normalizeHost_lowercase (host : Text) : normalizeHost L (toAsciiLowercase host) = normalizeHost L host := by
  unfold normalizeHost
  rw [trim_lowercase]
  have hhead := head?_lowercase (s := trim host) (d := '[') (by decide)
  have hmem : (toAsciiLowercase (trim host)).contains ']' = true ↔ (trim host).contains ']' = true := by
    rw [List.contains_iff_mem, List.contains_iff_mem, mem_lowercase (by decide)]
  have hdrop : (toAsciiLowercase (trim host)).drop 1 = toAsciiLowercase ((trim host).drop 1) := (List.map_drop ..).symm
  simp only [hhead, hmem, hdrop, takeWhile_lowercase (d := ']') (by decide), takeWhile_lowercase (d := ':') (by decide),
    count_lowercase (d := ':') (by decide), normalizeDnsHostOrIpLiteral_lowercase]

theorem stripStart_lowercase {pre : Text} (hpre : ∀ d ∈ pre, d.toNat < 65 ∨ 90 < d.toNat ∧ d.toNat < 97 ∨ 122 < d.toNat)
    (s : Text) : stripStart pre (toAsciiLowercase s) = (stripStart pre s).map toAsciiLowercase := by
  have hstart : pre.isPrefixOf (toAsciiLowercase s) = pre.isPrefixOf s := by
    induction pre generalizing s with
    | nil => rw [List.isPrefixOf_nil_left, List.isPrefixOf_nil_left]
    | cons d pre ih =>
      cases s with
      | nil => rfl
      | cons c s =>
        have hd := toLower_eq_iff (c := c) (hpre d List.mem_cons_self)
        have ih := ih (fun x hx => hpre x (List.mem_cons_of_mem _ hx)) s
        unfold toAsciiLowercase at ih ⊢
        rw [List.map_cons, List.isPrefixOf_cons_cons, List.isPrefixOf_cons_cons, ih]
        congr 1
        rw [Bool.eq_iff_iff, beq_iff_eq, beq_iff_eq, eq_comm, hd, eq_comm]
  unfold stripStart
  rw [hstart]
  split
  · rw [Option.map_some]
    unfold toAsciiLowercase
    rw [List.map_drop]
  · rfl

/-- **Case does not matter** to what a pattern is enforced as. -/
theorem normalizePattern_lowercase (pattern : Text) :
    normalizePattern L (toAsciiLowercase pattern) = normalizePattern L pattern := by
  have hstar : toAsciiLowercase (trim pattern) = ['*'] ↔ trim pattern = ['*'] := by
    rcases trim pattern with _ | ⟨c, _ | ⟨d, s⟩⟩
    · exact Iff.rfl
    · rw [toAsciiLowercase, List.map_singleton, List.singleton_inj, List.singleton_inj, toLower_eq_iff (by decide)]
    · simp [toAsciiLowercase]
  have hdouble : stripStart doubleStarDot (toAsciiLowercase (trim pattern)) = _ := stripStart_lowercase (by simp [doubleStarDot]) _
  have hsingle : stripStart starDot (toAsciiLowercase (trim pattern)) = _ := stripStart_lowercase (by simp [starDot]) _
  unfold normalizePattern
  simp only [trim_lowercase, hstar, hdouble, hsingle]
  split
  · rfl
  · cases stripStart doubleStarDot (trim pattern) with
    | some domain => simp only [Option.map_some, normalizeHost_lowercase]
    | none =>
      cases stripStart starDot (trim pattern) with
      | some domain => simp only [Option.map_none, Option.map_some, normalizeHost_lowercase]
      | none => simp only [Option.map_none, normalizeHost_lowercase]

theorem normalizePattern_congr {pattern pattern' : Text} (h : toAsciiLowercase pattern = toAsciiLowercase pattern') :
    normalizePattern L pattern = normalizePattern L pattern' := by
  rw [← normalizePattern_lowercase, h, normalizePattern_lowercase]

/-! ## Compiled sets -/

theorem addGlobs_ok {candidates} (h : addGlobs L seen candidates = .ok globs) (g : Text) :
    g ∈ globs ↔ g ∈ seen ∨ g ∈ candidates := by
  induction candidates generalizing seen with
  | nil =>
    cases h
    exact ⟨.inl, fun h => h.resolve_right List.not_mem_nil⟩
  | cons candidate rest ih =>
    unfold addGlobs at h
    split at h
    next hseen =>
      grind
    next =>
      split at h
      · rw [ih h, List.mem_append, List.mem_singleton, List.mem_cons, or_assoc]
      · cases h

theorem addPatterns_ok (h : addPatterns L wildcard seen patterns = .ok globs) (g : Text) :
    g ∈ globs ↔ g ∈ seen ∨ ∃ p ∈ patterns, g ∈ expandDomainPattern (normalizePattern L p) := by
  induction patterns generalizing seen with
  | nil =>
    cases h
    exact ⟨.inl, fun h => h.resolve_right fun ⟨_, hp, _⟩ => List.not_mem_nil hp⟩
  | cons pattern rest ih =>
    unfold addPatterns at h
    split at h
    · cases h
    · split at h
      · cases h
      next added hadded =>
        rw [ih h, addGlobs_ok hadded, List.exists_mem_cons_iff, or_assoc]

theorem compileGlobset_ok
    (h : compileGlobsetWithPolicy L patterns wildcard = .ok set) : addPatterns L wildcard [] patterns = .ok set.globs := by
  obtain ⟨globs, hadd, h⟩ := bind_eq_ok.1 h
  obtain ⟨_, -, h⟩ := bind_eq_ok.1 h
  cases h
  exact hadd

theorem mem_compileGlobset (h : compileGlobsetWithPolicy L patterns wildcard = .ok set) (g : Text) :
    g ∈ set.globs ↔ ∃ p ∈ patterns, g ∈ expandDomainPattern (normalizePattern L p) := by
  rw [addPatterns_ok (compileGlobset_ok h)]
  exact ⟨fun h => h.resolve_left List.not_mem_nil, .inr⟩

theorem isMatch_iff {host : Text} : set.isMatch L host = true ↔ ∃ g ∈ set.globs, L.globMatch g host = true :=
  List.any_eq_true

/-- A pattern admits a host: one of the globs it is enforced as matches. -/
def PatternMatches (L : Libraries Hook) (pattern host : Text) : Prop :=
  ∃ g ∈ expandDomainPattern (normalizePattern L pattern), L.globMatch g host = true

theorem isMatch_compileGlobset (h : compileGlobsetWithPolicy L patterns wildcard = .ok set) (host : Text) :
    set.isMatch L host = true ↔ ∃ p ∈ patterns, PatternMatches L p host := by
  rw [isMatch_iff]
  constructor
  · rintro ⟨g, hg, hm⟩
    obtain ⟨p, hp, hg⟩ := (mem_compileGlobset h g).1 hg
    exact ⟨p, hp, g, hg, hm⟩
  · rintro ⟨p, hp, g, hg, hm⟩
    exact ⟨g, (mem_compileGlobset h g).2 ⟨p, hp, hg⟩, hm⟩

/-! ## What is validated -/

theorem checked_bind {x} {f : Unit → Checked} : (x >>= f) = .ok () ↔ x = .ok () ∧ f () = .ok () := by
  rw [bind_eq_ok]
  exact ⟨fun ⟨_, h⟩ => h, fun h => ⟨(), h⟩⟩

theorem validatePolicy_iff : validatePolicyAgainstConstraints L config constraints = .ok () ↔
      (L.validateMitmHooks config.mitm config.mitmHooks).mapError invalidMitmHookConfiguration = .ok () ∧
      validateNonGlobalWildcardDomainPatterns L "network.denied_domains" (config.deniedDomains.getD []) = .ok () ∧
      validateFlag "network.enabled" config.enabled (constraints.enabled.getD true) = .ok () ∧
      validateMode config.mode constraints.mode = .ok () ∧ validateRest L config constraints = .ok () := by
  unfold validatePolicyAgainstConstraints
  rw [checked_bind, checked_bind, checked_bind, checked_bind]

/-- A mode is valid whatever the other settings are, and they are whatever the mode is. -/
theorem validatePolicy_mode {config' : NetworkProxyConfig Hook} {mode : NetworkMode}
    (h : validatePolicyAgainstConstraints L config constraints = .ok ())
    (hmode : validatePolicyAgainstConstraints L { config' with mode } constraints = .ok ()) :
    validatePolicyAgainstConstraints L { config with mode } constraints = .ok () := by
  rw [validatePolicy_iff] at h hmode ⊢
  exact ⟨h.1, h.2.1, h.2.2.1, hmode.2.2.2.1, h.2.2.2.2⟩

theorem validateRest_iff (h : validateRest L config constraints = .ok ()) :
    validateAllowedDomains L (config.allowedDomains.getD []) (config.deniedDomains.getD [])
      constraints.allowlistExpansionEnabled constraints.allowedDomains = .ok () ∧
    validateDeniedDomains L (config.deniedDomains.getD []) constraints.denylistExpansionEnabled constraints.deniedDomains = .ok () := by
  unfold validateRest at h
  simp only [checked_bind] at h
  exact ⟨h.2.2.2.2.1, h.2.2.2.2.2.1⟩

theorem validateManagedPresent_ok {fieldName message required} {present : Text → Bool}
    (h : validateManagedPresent fieldName message required present = .ok ()) :
    ∀ p ∈ required, present (toAsciiLowercase p) = true := by
  intro p hp
  unfold validateManagedPresent at h
  dsimp only at h
  split at h
  next hempty =>
    have hnone := List.filter_eq_nil_iff.1 (List.isEmpty_iff.1 hempty) (toAsciiLowercase p)
      (List.mem_dedup.2 (List.mem_map_of_mem hp))
    simpa using hnone
  next => cases h

theorem denied_of_validate (h : validatePolicyAgainstConstraints L config constraints = .ok ()) {managed}
    (hmanaged : constraints.deniedDomains = some managed) {pattern : Text} (hp : pattern ∈ managed) :
    ∃ entry ∈ config.deniedDomains.getD [], toAsciiLowercase entry = toAsciiLowercase pattern := by
  have hdenied := (validateRest_iff (validatePolicy_iff.1 h).2.2.2.2).2
  rw [hmanaged] at hdenied
  unfold validateDeniedDomains at hdenied
  rw [checked_bind] at hdenied
  suffices hin : toAsciiLowercase pattern ∈ lowercaseSet (config.deniedDomains.getD []) from List.mem_map.1 hin
  obtain ⟨-, hdenied⟩ := hdenied
  split at hdenied
  · split at hdenied
    next hsame =>
      have hall := (Bool.and_eq_true_iff.1 hsame).2
      exact List.contains_iff_mem.1 (List.all_eq_true.1 hall _ (List.mem_map_of_mem hp))
    next => cases hdenied
  · exact List.contains_iff_mem.1 (validateManagedPresent_ok hdenied pattern hp)
  · exact List.contains_iff_mem.1 (validateManagedPresent_ok hdenied pattern hp)

end Codex.NetworkProxy
