/-
Lists some of whose elements are numbered, by a counter that is taken back to
the length of the list when its end is cut off. The numbers ascend along the
list and none is beyond its element's position, so that the counter taken back
is above those that are left (`Numbered.cut`); elements without a number may
come in anywhere (`Numbered.insert`).
-/
import Mathlib.Data.List.Infix
import Mathlib.Tactic.Common

namespace NumberedList

variable {α : Type*}

/-- The number can be read off a name that ends in it. -/
theorem append_toString_injective (base : String) {i j : Nat} (h : base ++ toString i = base ++ toString j) : i = j := by
  have hlist := congrArg String.toList h
  rw [String.toList_append, String.toList_append] at hlist
  have hdigits : Nat.toDigits 10 i = Nat.toDigits 10 j := by
    rw [← Nat.toList_repr, ← Nat.toList_repr]
    exact List.append_cancel_left hlist
  rw [← Nat.ofDigitChars_ten_toDigits (n := i), hdigits, Nat.ofDigitChars_ten_toDigits]

/-- `isNumber a n`: the element `a` is numbered `n`. The counter is `next`. -/
structure Numbered (isNumber : α → Nat → Prop) (next : Nat) (l : List α) : Prop where
  ascending : l.Pairwise fun a b => ∀ i j, isNumber a i → isNumber b j → i < j
  within : ∀ before a after i, l = before ++ a :: after → isNumber a i → i ≤ before.length + 1
  below : ∀ a ∈ l, ∀ i, isNumber a i → i < next
  room : next ≤ l.length + 1

variable {isNumber : α → Nat → Prop} {next : Nat} {l xs ys : List α} {a b : α}

theorem numbered_nil : Numbered isNumber 1 ([] : List α) where
  ascending := .nil
  within := by
    intro before a after i h
    exact absurd h.symm (by simp)
  below := fun _ h => nomatch h
  room := Nat.le_refl 1

/-- No two elements have one number. -/
theorem Numbered.unique (h : Numbered isNumber next l) : l.Pairwise fun a b => ∀ i, isNumber a i → ¬ isNumber b i :=
  h.ascending.imp fun hlt i ha hb => Nat.lt_irrefl i (hlt i i ha hb)

/-- The element the counter is for goes to the end. -/
theorem Numbered.push (h : Numbered isNumber next l) (ha : ∀ i, isNumber a i → i = next) :
    Numbered isNumber (next + 1) (l ++ [a]) where
  ascending := by
    rw [List.pairwise_append]
    refine ⟨h.ascending, List.pairwise_singleton .., ?_⟩
    intro x hx y hy i j hi hj
    obtain rfl := List.mem_singleton.1 hy
    rw [ha j hj]
    exact h.below x hx i hi
  within := by
    intro before x after i heq hi
    rcases List.eq_nil_or_concat after with rfl | ⟨after, y, rfl⟩
    · obtain ⟨rfl, hlast⟩ := List.append_inj' heq rfl
      obtain rfl := List.singleton_inj.1 hlast
      rw [ha i hi]
      exact h.room
    · rw [List.concat_eq_append, ← List.cons_append, ← List.append_assoc] at heq
      exact h.within before x after i (List.append_inj' heq rfl).1 hi
  below := by
    intro x hx i hi
    rcases List.mem_append.1 hx with hx | hx
    · exact Nat.lt_succ_of_lt (h.below x hx i hi)
    · obtain rfl := List.mem_singleton.1 hx
      rw [ha i hi]
      exact Nat.lt_succ_self next
  room := by
    rw [List.length_append, List.length_singleton]
    exact Nat.succ_le_succ h.room

/-- An element without a number goes anywhere. -/
theorem Numbered.insert (h : Numbered isNumber next (xs ++ ys)) (ha : ∀ i, ¬ isNumber a i) :
    Numbered isNumber next (xs ++ a :: ys) where
  ascending := by
    obtain ⟨hxs, hys, hcross⟩ := List.pairwise_append.1 h.ascending
    refine List.pairwise_append.2 ⟨hxs, List.pairwise_cons.2 ⟨fun y _ i j hi => absurd hi (ha i), hys⟩, ?_⟩
    intro x hx y hy i j hi hj
    rcases List.mem_cons.1 hy with rfl | hy
    · exact absurd hj (ha j)
    · exact hcross x hx y hy i j hi hj
  within := by
    intro before x after i heq hi
    rcases List.append_eq_append_iff.1 heq with ⟨mid, rfl, hmid⟩ | ⟨mid, rfl, hmid⟩
    · cases mid with
      | nil =>
        obtain ⟨rfl, rfl⟩ := List.cons.inj hmid
        exact absurd hi (ha i)
      | cons y mid =>
        obtain ⟨rfl, rfl⟩ := List.cons.inj hmid
        have hle := h.within (xs ++ mid) x after i (by rw [List.append_assoc]; rfl) hi
        simp only [List.length_append, List.length_cons] at hle ⊢
        omega
    · cases mid with
      | nil =>
        obtain ⟨rfl, rfl⟩ := List.cons.inj hmid
        exact absurd hi (ha i)
      | cons y mid =>
        obtain ⟨rfl, rfl⟩ := List.cons.inj hmid
        exact h.within before x (mid ++ ys) i (by rw [List.append_assoc]; rfl) hi
  below := by
    intro x hx i hi
    rw [List.mem_append, List.mem_cons] at hx
    rcases hx with hx | rfl | hx
    · exact h.below x (List.mem_append_left _ hx) i hi
    · exact absurd hi (ha i)
    · exact h.below x (List.mem_append_right _ hx) i hi
  room := by
    have hroom := h.room
    rw [List.length_append] at hroom
    rw [List.length_append, List.length_cons]
    omega

theorem Numbered.replace (h : Numbered isNumber next (xs ++ a :: ys)) (hb : ∀ i, isNumber b i ↔ isNumber a i) :
    Numbered isNumber next (xs ++ b :: ys) where
  ascending := by
    obtain ⟨hxs, hys, hcross⟩ := List.pairwise_append.1 h.ascending
    obtain ⟨ha, hys⟩ := List.pairwise_cons.1 hys
    refine List.pairwise_append.2 ⟨hxs, List.pairwise_cons.2 ⟨fun y hy i j hi => ha y hy i j ((hb i).1 hi), hys⟩, ?_⟩
    intro x hx y hy i j hi hj
    rcases List.mem_cons.1 hy with rfl | hy
    · exact hcross x hx a List.mem_cons_self i j hi ((hb j).1 hj)
    · exact hcross x hx y (List.mem_cons_of_mem _ hy) i j hi hj
  within := by
    intro before x after i heq hi
    rcases List.append_eq_append_iff.1 heq with ⟨mid, rfl, hmid⟩ | ⟨mid, rfl, hmid⟩
    · cases mid with
      | nil =>
        obtain ⟨rfl, rfl⟩ := List.cons.inj hmid
        exact h.within _ a _ i (by rw [List.append_nil]) ((hb i).1 hi)
      | cons y mid =>
        obtain ⟨rfl, rfl⟩ := List.cons.inj hmid
        have hle := h.within (xs ++ a :: mid) x after i (by rw [List.append_assoc]; rfl) hi
        simpa only [List.length_append, List.length_cons] using hle
    · cases mid with
      | nil =>
        obtain ⟨rfl, rfl⟩ := List.cons.inj hmid
        exact h.within _ a _ i (by rw [List.append_nil]) ((hb i).1 hi)
      | cons y mid =>
        obtain ⟨rfl, rfl⟩ := List.cons.inj hmid
        exact h.within before x (mid ++ a :: ys) i (by rw [List.append_assoc]; rfl) hi
  below := by
    intro x hx i hi
    rw [List.mem_append, List.mem_cons] at hx
    rcases hx with hx | rfl | hx
    · exact h.below x (List.mem_append_left _ hx) i hi
    · exact h.below a (List.mem_append_right _ List.mem_cons_self) i ((hb i).1 hi)
    · exact h.below x (List.mem_append_right _ (List.mem_cons_of_mem _ hx)) i hi
  room := by
    have hroom := h.room
    simp only [List.length_append, List.length_cons] at hroom ⊢
    exact hroom

/-- **The end is cut off, and the counter goes back to what is left.** -/
theorem Numbered.cut (h : Numbered isNumber next (xs ++ ys)) : Numbered isNumber (xs.length + 1) xs where
  ascending := (List.pairwise_append.1 h.ascending).1
  within := fun before x after i heq => h.within before x (after ++ ys) i (by rw [heq, List.append_assoc]; rfl)
  below := by
    intro x hx i hi
    obtain ⟨before, after, rfl⟩ := List.append_of_mem hx
    have hle := h.within before x (after ++ ys) i (by rw [List.append_assoc]; rfl) hi
    rw [List.length_append, List.length_cons]
    omega
  room := Nat.le_refl _

end NumberedList
