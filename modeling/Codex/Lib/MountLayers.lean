/-
Mounts laid over one another on a tree: each replaces what is at its target and
below, so the last mount on the way to a path is what is seen there.
-/
import Mathlib.Data.List.Infix
import Mathlib.Tactic.Common

namespace MountLayers

structure Mount (α σ : Type*) where
  target : List α
  source : σ
  deriving DecidableEq, Repr

variable {α σ ι : Type*} [DecidableEq α]

/-- What the mounts show at `p`: the last one on the way to it. -/
def topmost (mounts : List (Mount α σ)) (p : List α) : Option σ :=
  ((mounts.filter fun m => m.target.isPrefixOf p).getLast?).map Mount.source

variable {mounts mounts' : List (Mount α σ)} {p : List α} {s : σ}

theorem topmost_append : topmost (mounts ++ mounts') p = (topmost mounts' p).or (topmost mounts p) := by
  rw [topmost, topmost, topmost, List.filter_append, List.getLast?_append]
  cases (mounts'.filter fun m => m.target.isPrefixOf p).getLast? <;> rfl

theorem topmost_eq_none : topmost mounts p = none ↔ ∀ m ∈ mounts, ¬ m.target <+: p := by
  simp [topmost]

/-- What is seen comes from a mount on the way. -/
theorem exists_of_topmost (h : topmost mounts p = some s) : ∃ m ∈ mounts, m.target <+: p ∧ m.source = s := by
  rw [topmost, Option.map_eq_some_iff] at h
  obtain ⟨m, hm, rfl⟩ := h
  have hmem := List.mem_of_getLast? hm
  rw [List.mem_filter, List.isPrefixOf_iff_prefix] at hmem
  exact ⟨m, hmem.1, hmem.2, rfl⟩

theorem topmost_ne_none {m} (hm : m ∈ mounts) (hp : m.target <+: p) : topmost mounts p ≠ none :=
  fun h => topmost_eq_none.1 h m hm hp

/-- Mounts on the way to `p` that all show the same show it there. -/
theorem topmost_of_forall {m} (hall : ∀ m ∈ mounts, m.target <+: p → m.source = s) (hm : m ∈ mounts)
    (hp : m.target <+: p) : topmost mounts p = some s := by
  cases h : topmost mounts p with
  | none => exact absurd h (topmost_ne_none hm hp)
  | some s' =>
    obtain ⟨m', hm', hp', rfl⟩ := exists_of_topmost h
    rw [hall m' hm' hp']

/-- Of parts laid one after another, the last that shows anything is seen. -/
theorem topmost_flatMap {part : ι → List (Mount α σ)} {parts} :
    topmost (parts.flatMap part) p = some s ↔ ∃ before i after, parts = before ++ i :: after ∧
      topmost (part i) p = some s ∧ ∀ j ∈ after, topmost (part j) p = none := by
  induction parts with
  | nil => simp [topmost]
  | cons i parts ih =>
    rw [List.flatMap_cons, topmost_append]
    cases hrest : topmost (parts.flatMap part) p with
    | some s' =>
      constructor
      · intro h
        obtain ⟨before, j, after, rfl, hj, hafter⟩ := ih.1 (hrest.trans h)
        exact ⟨i :: before, j, after, rfl, hj, hafter⟩
      · rintro ⟨before, j, after, hsplit, hj, hafter⟩
        cases before with
        | nil =>
          -- nothing after the first part shows anything, but the rest does
          obtain ⟨rfl, rfl⟩ := List.cons.inj hsplit
          obtain ⟨m, hm, hp, -⟩ := exists_of_topmost hrest
          obtain ⟨k, hk, hmk⟩ := List.mem_flatMap.1 hm
          exact absurd (hafter k hk) (topmost_ne_none hmk hp)
        | cons i' before =>
          obtain ⟨rfl, rfl⟩ := List.cons.inj hsplit
          exact hrest.symm.trans (ih.2 ⟨before, j, after, rfl, hj, hafter⟩)
    | none =>
      have hnone : ∀ j ∈ parts, topmost (part j) p = none := by
        intro j hj
        rw [topmost_eq_none]
        exact fun m hm => topmost_eq_none.1 hrest m (List.mem_flatMap.2 ⟨j, hj, hm⟩)
      constructor
      · exact fun h => ⟨[], i, parts, rfl, h, hnone⟩
      · rintro ⟨before, j, after, hsplit, hj, -⟩
        cases before with
        | nil =>
          obtain ⟨rfl, -⟩ := List.cons.inj hsplit
          exact hj
        | cons i' before =>
          obtain ⟨rfl, rfl⟩ := List.cons.inj hsplit
          rw [hnone j (by simp)] at hj
          cases hj

end MountLayers
