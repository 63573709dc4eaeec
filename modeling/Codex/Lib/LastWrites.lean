/-
What a fold over records leaves in a field that some of the records write: the value of
the last of them (`read_foldl`). Records put in anywhere leave the field alone exactly
when none of them has the last word, or only repeats it (`last_marked_iff`).
-/
import Mathlib.Data.List.Induction
import Mathlib.Tactic.Common

namespace LastWrites

variable {σ ι α : Type*}

/-- The value that the last record to write one writes. -/
def last (written : ι → Option α) (records : List ι) : Option α := (records.filterMap written).getLast?

variable {written : ι → Option α}

@[simp] theorem last_nil : last written [] = none := rfl

theorem last_append (before after : List ι) : last written (before ++ after) = (last written after).or (last written before) := by
  rw [last, List.filterMap_append, List.getLast?_append]
  rfl

theorem last_singleton (record : ι) : last written [record] = written record := by
  rw [last, List.filterMap_cons, List.filterMap_nil]
  cases written record <;> rfl

theorem last_concat (records : List ι) (record : ι) :
    last written (records ++ [record]) = (written record).or (last written records) := by
  rw [last_append, last_singleton]

theorem last_cons (record : ι) (records : List ι) :
    last written (record :: records) = (last written records).or (written record) := by
  rw [show record :: records = [record] ++ records from rfl, last_append, last_singleton]

theorem last_map {β : Type*} (f : α → β) (records : List ι) :
    last (fun record => (written record).map f) records = (last written records).map f := by
  induction records using List.reverseRecOn with
  | nil => rfl
  | append_singleton records record ih =>
    rw [last_concat, last_concat, ih]
    cases written record <;> rfl

theorem findSome?_reverse (records : List ι) : records.reverse.findSome? written = last written records := by
  induction records using List.reverseRecOn with
  | nil => rfl
  | append_singleton records record ih =>
    rw [List.reverse_append, List.reverse_singleton, List.singleton_append, List.findSome?_cons, ih, last_concat]
    cases written record <;> rfl

/-- **The last write stays.** The rule for the field may depend on an invariant of the states. -/
theorem read_foldl {step : σ → ι → σ} {read : σ → α} {inv : σ → Prop} (hinv : ∀ s record, inv s → inv (step s record))
    (hread : ∀ s record, inv s → read (step s record) = (written record).getD (read s)) {s : σ} (h : inv s) (records : List ι) :
    read (records.foldl step s) = (last written records).getD (read s) := by
  induction records generalizing s with
  | nil => rfl
  | cons record records ih =>
    rw [List.foldl_cons, ih (hinv s record h), hread s record h, last_cons]
    cases last written records <;> rfl

/-- **The first write stays**, if it is not too late for it. -/
theorem read_foldl_first {step : σ → ι → σ} {read : σ → Option α}
    (hread : ∀ s record, read (step s record) = (read s).or (written record)) (s : σ) (records : List ι) :
    read (records.foldl step s) = (read s).or (records.findSome? written) := by
  induction records generalizing s with
  | nil => exact (Option.or_none).symm
  | cons record records ih =>
    rw [List.foldl_cons, ih, hread, List.findSome?_cons]
    cases read s <;> cases written record <;> rfl

/-- The last write among marked records, and whether a marked one has made it. -/
def lastMarked (written : ι → Option α) (records : List (ι × Bool)) : Option (α × Bool) :=
  last (fun record => (written record.1).map fun v => (v, record.2)) records

/-- **Records put in have no say** unless one of them writes last, and writes something else. -/
theorem last_marked_iff (records : List (ι × Bool)) :
    last written (records.map Prod.fst) = last written ((records.filter fun record => !record.2).map Prod.fst) ↔
      ∀ v, lastMarked written records = some (v, true) →
        last written ((records.filter fun record => !record.2).map Prod.fst) = some v := by
  induction records using List.reverseRecOn with
  | nil => simp [lastMarked]
  | append_singleton records record ih =>
    obtain ⟨record, mark⟩ := record
    rw [List.map_append, List.map_singleton, last_concat, lastMarked, last_concat, ← lastMarked, List.filter_append,
      List.map_append]
    cases mark with
    | false =>
      rw [List.filter_cons_of_pos rfl, List.filter_nil, List.map_singleton, last_concat]
      cases written record with
      | none => simpa using ih
      | some v => simp
    | true =>
      cases written record with
      | none => simpa using ih
      | some v =>
        simp only [Option.map_some, Option.some_or, Option.some.injEq, Prod.mk.injEq, and_true, forall_eq']
        exact eq_comm

end LastWrites
