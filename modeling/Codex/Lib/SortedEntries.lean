/-
Tables as lists of entries in the strict order of their keys. What is read
after an insertion and after a removal; and that a table is what is read from
it (`ext_lookup`), so two ways to build one are compared key by key.
-/
import Mathlib.Order.Lattice
import Mathlib.Tactic.Common

namespace SortedEntries

variable {κ α : Type} [LinearOrder κ]

def insert (key : κ) (value : α) : List (κ × α) → List (κ × α)
  | [] => [(key, value)]
  | (k, v) :: t =>
    if key = k then (key, value) :: t
    else if key < k then (key, value) :: (k, v) :: t
    else (k, v) :: insert key value t

def Ascending (t : List (κ × α)) : Prop := t.Pairwise fun a b => a.1 < b.1

variable {t : List (κ × α)}

theorem lookup_cons (key k : κ) (v : α) (t : List (κ × α)) :
    ((k, v) :: t).lookup key = if key = k then some v else t.lookup key := by
  rw [List.lookup_cons]
  by_cases h : key = k
  · subst h
    rw [beq_self_eq_true, if_pos rfl]
  · rw [beq_eq_false_iff_ne.2 h, if_neg h]

theorem lookup_insert (key : κ) (value : α) (t : List (κ × α)) (key' : κ) :
    (insert key value t).lookup key' = if key' = key then some value else t.lookup key' := by
  induction t with
  | nil => exact lookup_cons ..
  | cons entry t ih =>
    obtain ⟨k, v⟩ := entry
    unfold insert
    split
    next h =>
      subst h
      rw [lookup_cons, lookup_cons]
      split <;> rfl
    next h =>
      split
      · exact lookup_cons ..
      · rw [lookup_cons, lookup_cons, ih]
        by_cases hk : key' = k
        · subst hk
          rw [if_pos rfl, if_pos rfl, if_neg (Ne.symm h)]
        · rw [if_neg hk, if_neg hk]

theorem lookup_remove (key : κ) (t : List (κ × α)) (key' : κ) :
    (t.filter fun entry => entry.1 ≠ key).lookup key' = if key' = key then none else t.lookup key' := by
  induction t with
  | nil =>
    split <;> rfl
  | cons entry t ih =>
    obtain ⟨k, v⟩ := entry
    by_cases hk : k = key
    · subst hk
      rw [List.filter_cons_of_neg (by simp), ih, lookup_cons]
      split <;> rfl
    · rw [List.filter_cons_of_pos (by simpa using hk), lookup_cons, lookup_cons, ih]
      by_cases hkey : key' = k
      · subst hkey
        rw [if_pos rfl, if_pos rfl, if_neg hk]
      · rw [if_neg hkey, if_neg hkey]

theorem mem_insert {key : κ} {value : α} {entry} (h : entry ∈ insert key value t) :
    entry = (key, value) ∨ entry ∈ t := by
  induction t with
  | nil => exact .inl (List.mem_singleton.1 h)
  | cons first t ih =>
    unfold insert at h
    split at h
    · exact (List.mem_cons.1 h).imp_right (List.mem_cons_of_mem _)
    · split at h
      · exact List.mem_cons.1 h
      · rcases List.mem_cons.1 h with rfl | h
        · exact .inr List.mem_cons_self
        · exact (ih h).imp_right (List.mem_cons_of_mem _)

theorem ascending_insert (h : Ascending t) (key : κ) (value : α) : Ascending (insert key value t) := by
  induction t with
  | nil => exact List.pairwise_singleton ..
  | cons first t ih =>
    obtain ⟨hfirst, htail⟩ := List.pairwise_cons.1 h
    unfold insert
    split
    next heq =>
      subst heq
      exact List.pairwise_cons.2 ⟨hfirst, htail⟩
    next hne =>
      split
      next hlt =>
        refine List.pairwise_cons.2 ⟨fun entry hentry => ?_, h⟩
        rcases List.mem_cons.1 hentry with rfl | hentry
        · exact hlt
        · exact lt_trans hlt (hfirst entry hentry)
      next hnlt =>
        refine List.pairwise_cons.2 ⟨fun entry hentry => ?_, ih htail⟩
        rcases mem_insert hentry with rfl | hentry
        · exact lt_of_le_of_ne (not_lt.1 hnlt) (Ne.symm hne)
        · exact hfirst entry hentry

theorem Ascending.filter (h : Ascending t) (p : κ × α → Bool) : Ascending (t.filter p) := h.sublist List.filter_sublist

theorem mem_of_lookup {key : κ} {value : α} (h : t.lookup key = some value) : (key, value) ∈ t := by
  obtain ⟨before, after, rfl, -⟩ := List.lookup_eq_some_iff.1 h
  simp

theorem lookup_of_lt {key : κ} (h : ∀ entry ∈ t, key < entry.1) : t.lookup key = none := by
  cases hlookup : t.lookup key with
  | none => rfl
  | some value => exact absurd (h _ (mem_of_lookup hlookup)) (lt_irrefl key)

theorem lookup_of_mem (h : Ascending t) {key : κ} {value : α} (hmem : (key, value) ∈ t) : t.lookup key = some value := by
  induction t with
  | nil => cases hmem
  | cons first t ih =>
    obtain ⟨hfirst, htail⟩ := List.pairwise_cons.1 h
    rw [lookup_cons]
    rcases List.mem_cons.1 hmem with heq | hmem
    · obtain ⟨rfl, rfl⟩ := Prod.mk.inj heq
      exact if_pos rfl
    · rw [if_neg (ne_of_gt (hfirst _ hmem)), ih htail hmem]

/-- **A table is what is read from it.** -/
theorem ext_lookup {s t : List (κ × α)} (hs : Ascending s) (ht : Ascending t) (h : ∀ key, s.lookup key = t.lookup key) :
    s = t := by
  induction s generalizing t with
  | nil =>
    cases t with
    | nil => rfl
    | cons entry t => exact absurd ((h entry.1).symm.trans rfl) (by rw [lookup_cons, if_pos rfl]; exact Option.some_ne_none _)
  | cons first s ih =>
    obtain ⟨k, v⟩ := first
    obtain ⟨hfirst, hrest⟩ := List.pairwise_cons.1 hs
    cases t with
    | nil => exact absurd (h k) (by rw [lookup_cons, if_pos rfl]; exact Option.some_ne_none _)
    | cons entry t =>
      obtain ⟨k', v'⟩ := entry
      obtain ⟨hfirst', hrest'⟩ := List.pairwise_cons.1 ht
      -- Each first key is read from the other table too, where it is no smaller than the first.
      have hmem : (k, v) ∈ (k', v') :: t := mem_of_lookup (by rw [← h, lookup_cons, if_pos rfl])
      have hmem' : (k', v') ∈ (k, v) :: s := mem_of_lookup (by rw [h, lookup_cons, if_pos rfl])
      have hentry : (k, v) = (k', v') := by
        rcases List.mem_cons.1 hmem with heq | hin
        · exact heq
        · rcases List.mem_cons.1 hmem' with heq | hin'
          · exact heq.symm
          · exact absurd (hfirst' _ hin) (lt_asymm (hfirst _ hin'))
      obtain ⟨rfl, rfl⟩ := Prod.mk.inj hentry
      rw [ih hrest hrest' fun key => ?_]
      have hkey := h key
      rw [lookup_cons, lookup_cons] at hkey
      by_cases heq : key = k
      · subst heq
        rw [lookup_of_lt hfirst, lookup_of_lt hfirst']
      · rwa [if_neg heq, if_neg heq] at hkey

end SortedEntries
