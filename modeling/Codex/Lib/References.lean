/-
Things that refer to one another, at most once each, and are deleted in turn. Counting the
references to what is to be deleted, once all of them and once those from within, tells
whether any comes from outside (`referrer_mem`).If none does, deleting all strands nothing
that stays (`Deleted.strands_none`).
-/
import Codex.Lib.OrderedTables
import Mathlib.Data.List.Perm.Subperm

namespace References

variable {κ : Type} [DecidableEq κ]

/-! ## Counts -/

/-- `*counts.entry(key).or_default() += 1` -/
def bump (counts : List (κ × Nat)) (key : κ) : List (κ × Nat) :=
  OrderedTables.insert counts key ((OrderedTables.get counts key).getD 0 + 1)

def tally (keys : List κ) : List (κ × Nat) := keys.foldl bump []

theorem foldl_bump (counts : List (κ × Nat)) (keys : List κ) (key : κ) :
    (OrderedTables.get (keys.foldl bump counts) key).getD 0 = (OrderedTables.get counts key).getD 0 + keys.count key := by
  induction keys generalizing counts with
  | nil => rfl
  | cons k keys ih =>
    rw [List.foldl_cons, ih, bump, OrderedTables.get_insert, List.count_cons]
    by_cases h : k = key
    · subst h
      rw [if_pos rfl, if_pos (beq_self_eq_true k), Option.getD_some]
      omega
    · rw [if_neg h, if_neg (by simpa using h)]
      omega

theorem get_tally (keys : List κ) (key : κ) : (OrderedTables.get (tally keys) key).getD 0 = keys.count key := by
  rw [tally, foldl_bump]
  exact Nat.zero_add _

/-- What the things refer to, other than to themselves. -/
def referred (base : κ → Option κ) (things : List κ) : List κ := things.filterMap fun thing => (base thing).filter (· ≠ thing)

variable {base : κ → Option κ}

theorem count_referred (things : List κ) (target : κ) :
    (referred base things).count target = (things.filter fun thing => base thing = some target ∧ target ≠ thing).length := by
  induction things with
  | nil => rfl
  | cons thing things ih =>
    rw [referred, List.filterMap_cons, List.filter_cons, ← referred]
    cases hbase : base thing with
    | none => simpa using ih
    | some b =>
      by_cases hself : b = thing
      · rw [Option.filter_some_neg (by simpa using hself), if_neg (by simp [hself, eq_comm])]
        exact ih
      · rw [Option.filter_some_pos (by simpa using hself)]
        rw [List.count_cons, ih]
        by_cases h : b = target
        · subst h
          simp [hself]
        · simp [h]

/-- **No reference from outside**: the things within refer to the target as often as all of them do. -/
theorem referrer_mem {things within} (hwithin : within.Nodup)
    (hbase : ∀ thing, (base thing).isSome → thing ∈ things) {target : κ}
    (hle : (referred base things).count target ≤ (referred base within).count target) {thing : κ} (h : base thing = some target)
    (hne : target ≠ thing) : thing ∈ within := by
  rw [count_referred, count_referred] at hle
  have hsub : (within.filter fun thing => base thing = some target ∧ target ≠ thing) ⊆
      things.filter fun thing => base thing = some target ∧ target ≠ thing := by
    intro thing hthing
    rw [List.mem_filter] at hthing ⊢
    refine ⟨hbase thing ?_, hthing.2⟩
    rw [(of_decide_eq_true hthing.2).1]
    rfl
  have hperm := ((hwithin.filter _).subperm hsub).perm_of_length_le hle
  have hmem : thing ∈ things.filter fun thing => base thing = some target ∧ target ≠ thing :=
    List.mem_filter.2 ⟨hbase thing (by rw [h]; rfl), decide_eq_true ⟨h, hne⟩⟩
  exact (List.mem_filter.1 (hperm.mem_iff.2 hmem)).1

/-! ## Deletion in turn -/

/-- Some have been deleted, in turn: `done` is gone, and `current` may be. -/
structure Deleted (before after : κ → Prop) (done : List κ) (current : Option κ) : Prop where
  gone : ∀ thing ∈ done, ¬ after thing
  kept : ∀ thing, before thing → thing ∉ done → current ≠ some thing → after thing

/-- Each thing comes after those that refer to it. -/
def ReferrersFirst (base : κ → Option κ) (things : List κ) : Prop :=
  ∀ earlier target later, things = earlier ++ target :: later → target ∉ earlier →
    ∀ thing ∈ things, base thing = some target → target ≠ thing → thing ∈ earlier

variable {before after : κ → Prop}

/-- **Nothing is stranded** by a deletion that nothing outside refers to, if it comes to its end or keeps the order. -/
theorem Deleted.strands_none {done rest current} (h : Deleted before after done current)
    (hclosed : ∀ target ∈ done ++ current.toList ++ rest, ∀ thing, base thing = some target → target ≠ thing →
      thing ∈ done ++ current.toList ++ rest)
    (hend : current.toList ++ rest = [] ∨ ReferrersFirst base (done ++ current.toList ++ rest)) {thing target : κ}
    (hbase : base thing = some target) (hthing : after thing) (htarget : before target) : after target := by
  by_contra hlost
  have hne : target ≠ thing := fun heq => hlost (heq ▸ hthing)
  -- what comes before the target has been deleted
  have hplace : ∃ earlier later, done ++ current.toList ++ rest = earlier ++ target :: later ∧ target ∉ earlier ∧
      ∀ thing ∈ earlier, thing ∈ done := by
    by_cases hdone : target ∈ done
    · obtain ⟨earlier, later, rfl, hfirst⟩ := List.eq_append_cons_of_mem hdone
      exact ⟨earlier, later ++ (current.toList ++ rest), by simp, hfirst, fun thing hthing => List.mem_append_left _ hthing⟩
    · have hcurrent : current = some target := by
        by_contra hcurrent
        exact hlost (h.kept target htarget hdone hcurrent)
      exact ⟨done, rest, by simp [hcurrent], hdone, fun thing hthing => hthing⟩
  obtain ⟨earlier, later, hsplit, hfirst, hearlier⟩ := hplace
  have hmem : thing ∈ done ++ current.toList ++ rest := by
    refine hclosed target ?_ thing hbase hne
    rw [hsplit]
    exact List.mem_append_right _ (List.mem_cons_self ..)
  rcases hend with hend | hend
  · rw [List.append_assoc, hend, List.append_nil] at hmem
    exact h.gone thing hmem hthing
  · exact h.gone thing (hearlier thing (hend earlier target later hsplit hfirst thing hmem hbase hne)) hthing

end References
