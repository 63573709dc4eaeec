/-
A growing list read as records that each end in a separator. What follows the last
separator is not a record yet. Splitting a list after a complete prefix splits its records
(`records_append`).
-/
import Mathlib.Data.List.Infix
import Mathlib.Tactic.Common

namespace Records

variable {α : Type*} [DecidableEq α] (sep : α)

/-- The records of a list, each with its separator, and what is left after them. -/
def split : List α → List (List α) × List α
  | [] => ([], [])
  | a :: l =>
    let (rs, t) := split l
    if a = sep then ([a] :: rs, t)
    else match rs with
      | [] => ([], a :: t)
      | r :: rs => ((a :: r) :: rs, t)

def records (l : List α) : List (List α) := (split sep l).1

def rest (l : List α) : List α := (split sep l).2

/-- The prefix that is records. -/
def complete (l : List α) : List α := (records sep l).flatten

/-- Nothing is left after the records. -/
def Complete (l : List α) : Prop := rest sep l = []

variable {sep}

@[simp] theorem records_nil : records sep ([] : List α) = [] := rfl

@[simp] theorem complete_nil : complete sep ([] : List α) = [] := rfl

theorem Complete.nil : Complete sep ([] : List α) := rfl

theorem complete_append_rest (l : List α) : complete sep l ++ rest sep l = l := by
  induction l with
  | nil => rfl
  | cons a l ih =>
    simp only [complete, records, rest, split] at ih ⊢
    split
    · simpa using ih
    · split
      · next h =>
        rw [h] at ih
        simpa using ih
      · next h =>
        rw [h] at ih
        simpa using ih

theorem complete_isPrefix (l : List α) : complete sep l <+: l := ⟨rest sep l, complete_append_rest l⟩

theorem Complete.eq {l} (h : Complete sep l) : complete sep l = l := by
  have happ : complete sep l ++ rest sep l = l := complete_append_rest l
  rwa [show rest sep l = [] from h, List.append_nil] at happ

theorem split_append {l} (h : Complete sep l) (m : List α) :
    split sep (l ++ m) = (records sep l ++ records sep m, rest sep m) := by
  induction l with
  | nil => rfl
  | cons a l ih =>
    simp only [Complete, records, rest, split, List.cons_append] at h ih ⊢
    split at h
    · next ha =>
      rw [ih h]
      simp [ha]
    · next ha =>
      split at h
      · simp at h
      · next r rs hr =>
        rw [ih h]
        simp [ha, hr]

/-- **Records are read once.** After a complete prefix the rest has its own records. -/
theorem records_append {l} (h : Complete sep l) (m : List α) :
    records sep (l ++ m) = records sep l ++ records sep m := by
  rw [records, split_append h]

theorem rest_append {l} (h : Complete sep l) (m : List α) : rest sep (l ++ m) = rest sep m := by
  rw [rest, split_append h]

theorem complete_append {l} (h : Complete sep l) (m : List α) :
    complete sep (l ++ m) = l ++ complete sep m := by
  rw [complete, records_append h, List.flatten_append]
  exact congrArg (· ++ complete sep m) h.eq

theorem Complete.append {l m} (hl : Complete sep l) (hm : Complete sep m) : Complete sep (l ++ m) :=
  (rest_append hl m).trans hm

/-- A record ends in the only separator it has. -/
def IsRecord (sep : α) (r : List α) : Prop := ∃ body, sep ∉ body ∧ r = body ++ [sep]

theorem isRecord_of_mem {l r} (h : r ∈ records sep l) : IsRecord sep r := by
  induction l generalizing r with
  | nil => simp at h
  | cons a l ih =>
    simp only [records, split] at h ih
    split at h
    · next ha =>
      rcases List.mem_cons.1 h with rfl | hr
      · exact ⟨[], by simp, by simp [ha]⟩
      · exact ih hr
    · next ha =>
      split at h
      · simp at h
      · next r' rs hrs =>
        rw [hrs] at ih
        rcases List.mem_cons.1 h with rfl | hr
        · obtain ⟨body, hbody, rfl⟩ := ih (List.mem_cons_self ..)
          exact ⟨a :: body, by simp [Ne.symm ha, hbody], rfl⟩
        · exact ih (List.mem_cons_of_mem _ hr)

theorem split_record {body} (h : sep ∉ body) (m : List α) :
    split sep (body ++ [sep] ++ m) = ((body ++ [sep]) :: records sep m, rest sep m) := by
  induction body with
  | nil => simp [split, records, rest]
  | cons a body ih =>
    simp only [List.mem_cons, not_or] at h
    have ha : a ≠ sep := Ne.symm h.1
    simp only [List.cons_append, split, ih h.2, if_neg ha]

theorem split_flatten {rs} (h : ∀ r ∈ rs, IsRecord sep r) : split sep rs.flatten = (rs, []) := by
  induction rs with
  | nil => rfl
  | cons r rs ih =>
    simp only [List.mem_cons, forall_eq_or_imp] at h
    obtain ⟨body, hbody, rfl⟩ := h.1
    rw [List.flatten_cons, split_record hbody]
    simp only [records, rest, ih h.2]

theorem complete_complete (l : List α) : Complete sep (complete sep l) := by
  rw [Complete, rest, complete, split_flatten fun r => isRecord_of_mem]

theorem records_complete (l : List α) : records sep (complete sep l) = records sep l := by
  rw [records, complete, split_flatten fun r => isRecord_of_mem]

theorem Complete.isPrefix_complete {p l} (hp : Complete sep p) (h : p <+: l) : p <+: complete sep l := by
  obtain ⟨m, rfl⟩ := h
  rw [complete_append hp]
  exact List.prefix_append _ _

end Records
