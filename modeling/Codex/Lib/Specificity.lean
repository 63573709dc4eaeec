/-
Rules attached to the nodes of a tree: of the rules on the way to a path, the
most specific one decides, and of two rules at one node the greater mode.

A rule that does not decide its own path decides no path, so what a list of
rules decides is fixed by the rules in it that decide their own path
(`modeAt_congr`).
-/
import Mathlib.Data.List.Infix
import Mathlib.Data.Prod.Lex
import Mathlib.Tactic.Common

namespace Specificity

/-- A rule on a node of a tree whose edges are labelled in `α`. -/
structure Rule (α β : Type*) where
  path : List α
  mode : β
  deriving DecidableEq

variable {α β γ κ : Type*} [LinearOrder κ]

/-! ## The greatest by key -/

/-- An element whose key is greatest; the last of several. -/
def maxByKey (key : γ → κ) : List γ → Option γ
  | [] => none
  | a :: l => some (l.foldl (fun best b => if key best ≤ key b then b else best) a)

theorem foldl_max_spec (key : γ → κ) (l : List γ) (a : γ) :
    let m := l.foldl (fun best b => if key best ≤ key b then b else best) a
    (m = a ∨ m ∈ l) ∧ key a ≤ key m ∧ ∀ b ∈ l, key b ≤ key m := by
  induction l generalizing a with
  | nil => simp
  | cons b l ih =>
    obtain ⟨hmem, hle, hall⟩ := ih (if key a ≤ key b then b else a)
    by_cases h : key a ≤ key b
    · simp only [List.foldl_cons, if_pos h] at hmem hle hall ⊢
      refine ⟨.inr (List.mem_cons.2 hmem), h.trans hle, fun c hc => ?_⟩
      rcases List.mem_cons.1 hc with rfl | hc
      exacts [hle, hall c hc]
    · simp only [List.foldl_cons, if_neg h] at hmem hle hall ⊢
      refine ⟨hmem.imp_right (List.mem_cons_of_mem b), hle, fun c hc => ?_⟩
      rcases List.mem_cons.1 hc with rfl | hc
      exacts [(le_of_not_ge h).trans hle, hall c hc]

theorem maxByKey_spec {key : γ → κ} {l} {m : γ} (h : maxByKey key l = some m) :
    m ∈ l ∧ ∀ b ∈ l, key b ≤ key m := by
  cases l with
  | nil => simp [maxByKey] at h
  | cons a l =>
    obtain ⟨hmem, hle, hall⟩ := foldl_max_spec key l a
    cases h
    refine ⟨List.mem_cons.2 hmem, fun b hb => ?_⟩
    rcases List.mem_cons.1 hb with rfl | hb
    exacts [hle, hall b hb]

theorem maxByKey_eq_none {key : γ → κ} {l} : maxByKey key l = none ↔ l = [] := by
  cases l <;> simp [maxByKey]

/-! ## The most specific rule -/

variable [LinearOrder β]

/-- Deeper rules come first, then the greater mode. -/
def precedence (r : Rule α β) : ℕ ×ₗ β := toLex (r.path.length + 1, r.mode)

theorem precedence_le {r s : Rule α β} :
    precedence r ≤ precedence s ↔ r.path.length < s.path.length ∨ r.path.length = s.path.length ∧ r.mode ≤ s.mode := by
  simp [precedence, Prod.Lex.toLex_le_toLex]

/-- Of rules on the way to one path, the precedence tells one rule. -/
theorem eq_of_precedence {r s : Rule α β} {p : List α} (hr : r.path <+: p) (hs : s.path <+: p)
    (hrs : precedence r ≤ precedence s) (hsr : precedence s ≤ precedence r) : r = s := by
  rw [precedence_le] at hrs hsr
  obtain ⟨path, mode⟩ := r
  obtain ⟨path', mode'⟩ := s
  simp only at *
  have hlen : path.length = path'.length := by omega
  have hpath : path = path' := (List.prefix_of_prefix_length_le hr hs hlen.le).eq_of_length hlen
  have hmode : mode = mode' := le_antisymm (by simpa [hlen] using hrs) (by simpa [hlen] using hsr)
  rw [hpath, hmode]

variable [DecidableEq α]

/-- The rule that decides `p`: of the rules on the way to `p`, the one with the highest precedence. -/
def mostSpecific (rules : List (Rule α β)) (p : List α) : Option (Rule α β) :=
  maxByKey precedence (rules.filter fun r => r.path.isPrefixOf p)

variable {rules rules' : List (Rule α β)} {r s : Rule α β} {p q : List α}

theorem mostSpecific_eq_none : mostSpecific rules p = none ↔ ∀ r ∈ rules, ¬ r.path <+: p := by
  simp [mostSpecific, maxByKey_eq_none, List.filter_eq_nil_iff]

theorem mostSpecific_eq_some :
    mostSpecific rules p = some r ↔ r ∈ rules ∧ r.path <+: p ∧ ∀ s ∈ rules, s.path <+: p → precedence s ≤ precedence r := by
  constructor
  · intro h
    obtain ⟨hmem, hall⟩ := maxByKey_spec h
    simp only [List.mem_filter, List.isPrefixOf_iff_prefix] at hmem hall
    exact ⟨hmem.1, hmem.2, fun s hs hsp => hall s ⟨hs, hsp⟩⟩
  · rintro ⟨hmem, hcov, hall⟩
    cases h : mostSpecific rules p with
    | none => exact absurd hcov (mostSpecific_eq_none.1 h r hmem)
    | some s =>
      obtain ⟨hsmem, hsall⟩ := maxByKey_spec h
      simp only [List.mem_filter, List.isPrefixOf_iff_prefix] at hsmem hsall
      exact congrArg some (eq_of_precedence hsmem.2 hcov (hall s hsmem.1 hsmem.2) (hsall r ⟨hmem, hcov⟩))

theorem mem_of_mostSpecific (h : mostSpecific rules p = some r) : r ∈ rules := (mostSpecific_eq_some.1 h).1

theorem covers_of_mostSpecific (h : mostSpecific rules p = some r) : r.path <+: p := (mostSpecific_eq_some.1 h).2.1

/-- The rule that decides `p` is at least as deep as every rule on the way to `p`. -/
theorem covers_mostSpecific (h : mostSpecific rules p = some r) (hs : s ∈ rules) (hsp : s.path <+: p) : s.path <+: r.path := by
  obtain ⟨-, hcov, hall⟩ := mostSpecific_eq_some.1 h
  have hle := precedence_le.1 (hall s hs hsp)
  exact List.prefix_of_prefix_length_le hsp hcov (by omega)

/-- What decides `p` decides everything between its own path and `p`. -/
theorem mostSpecific_between (h : mostSpecific rules p = some r) (hrq : r.path <+: q) (hqp : q <+: p) :
    mostSpecific rules q = some r := by
  obtain ⟨hmem, -, hall⟩ := mostSpecific_eq_some.1 h
  exact mostSpecific_eq_some.2 ⟨hmem, hrq, fun s hs hsq => hall s hs (hsq.trans hqp)⟩

theorem mostSpecific_own (h : mostSpecific rules p = some r) : mostSpecific rules r.path = some r :=
  mostSpecific_between h (List.prefix_refl _) (covers_of_mostSpecific h)

theorem exists_mostSpecific (hs : s ∈ rules) (hsp : s.path <+: p) :
    ∃ r, mostSpecific rules p = some r ∧ precedence s ≤ precedence r := by
  cases h : mostSpecific rules p with
  | none => exact absurd hsp (mostSpecific_eq_none.1 h s hs)
  | some r => exact ⟨r, rfl, (mostSpecific_eq_some.1 h).2.2 s hs hsp⟩

/-- A rule's own path is decided by a rule at that path, with a mode as great. -/
theorem exists_mostSpecific_own (hs : s ∈ rules) :
    ∃ mode, mostSpecific rules s.path = some ⟨s.path, mode⟩ ∧ s.mode ≤ mode := by
  obtain ⟨⟨path, mode⟩, hr, hle⟩ := exists_mostSpecific hs (List.prefix_refl _)
  have hcov : path <+: s.path := covers_of_mostSpecific hr
  rw [precedence_le] at hle
  have hpath : path = s.path := hcov.eq_of_length (by have := hcov.length_le; simp only at hle; omega)
  subst hpath
  exact ⟨mode, hr, by simpa using hle⟩

/-! ## The rules that decide their own path -/

/-- The mode of the rule that decides `p`, `d` where no rule is on the way to it. -/
def modeAt (d : β) (rules : List (Rule α β)) (p : List α) : β := ((mostSpecific rules p).map Rule.mode).getD d

theorem modeAt_of_mostSpecific {d : β} (h : mostSpecific rules p = some r) : modeAt d rules p = r.mode := by
  rw [modeAt, h]
  rfl

theorem mostSpecific_of_own {d : β}
    (h : ∀ r, r ≠ ⟨[], d⟩ → (mostSpecific rules r.path = some r ↔ mostSpecific rules' r.path = some r))
    (hr : mostSpecific rules p = some r) (hne : r ≠ ⟨[], d⟩) : mostSpecific rules' p = some r := by
  have hown := (h r hne).1 (mostSpecific_own hr)
  obtain ⟨s, hs, hle⟩ := exists_mostSpecific (mem_of_mostSpecific hown) (covers_of_mostSpecific hr)
  by_cases hsne : s = ⟨[], d⟩
  · -- a rule on the root decides `p` only where no deeper one is on the way
    subst hsne
    have hroot : r.path = [] := by
      have hcov := covers_mostSpecific hs (mem_of_mostSpecific hown) (covers_of_mostSpecific hr)
      simpa using hcov
    rw [hroot, mostSpecific_own hs] at hown
    exact absurd (Option.some.inj hown).symm hne
  · have hown' := (h s hsne).2 (mostSpecific_own hs)
    obtain ⟨r', hr', hle'⟩ := exists_mostSpecific (mem_of_mostSpecific hown') (covers_of_mostSpecific hs)
    rw [hr] at hr'
    cases hr'
    rw [hs, eq_of_precedence (covers_of_mostSpecific hr) (covers_of_mostSpecific hs) hle hle']

/-- What a list of rules decides is fixed by the rules that decide their own path; among these a
rule on the root with the default mode makes no difference. -/
theorem modeAt_congr {d : β}
    (h : ∀ r, r ≠ ⟨[], d⟩ → (mostSpecific rules r.path = some r ↔ mostSpecific rules' r.path = some r)) (p : List α) :
    modeAt d rules p = modeAt d rules' p := by
  have hstep : ∀ {rules rules' : List (Rule α β)},
      (∀ r, r ≠ ⟨[], d⟩ → (mostSpecific rules r.path = some r ↔ mostSpecific rules' r.path = some r)) →
      modeAt d rules p ≠ d → modeAt d rules p = modeAt d rules' p := by
    intro rules rules' h hd
    cases hr : mostSpecific rules p with
    | none => exact absurd (by rw [modeAt, hr]; rfl) hd
    | some r =>
      have hne : r ≠ ⟨[], d⟩ := fun he => hd (by rw [modeAt_of_mostSpecific hr, he])
      rw [modeAt_of_mostSpecific hr, modeAt_of_mostSpecific (mostSpecific_of_own h hr hne)]
  by_cases h₁ : modeAt d rules p = d
  · by_cases h₂ : modeAt d rules' p = d
    · rw [h₁, h₂]
    · exact (hstep (fun r hr => (h r hr).symm) h₂).symm
  · exact hstep h h₁

end Specificity
