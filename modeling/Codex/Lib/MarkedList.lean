/-
Lists with marked elements: cutting a list before one of its marks, and
dropping the last few marks together with what follows them. Elements that
may be trimmed (never marks) go when they end up last after a cut.
-/
import Mathlib.Data.List.DropRight
import Mathlib.Tactic.Common

namespace MarkedList

variable {α : Type*} {isMark isTrim : α → Bool}

/-- The elements before mark number `k`, counted from zero; all of them when there are fewer marks. -/
def before (isMark : α → Bool) : Nat → List α → List α
  | _, [] => []
  | k, x :: xs =>
    if isMark x then
      match k with
      | 0 => []
      | k + 1 => x :: before isMark k xs
    else x :: before isMark k xs

/-- A list without its last `n` marks and what follows the first of them. What
precedes the cut is trimmed, unless no mark is left before it. -/
def dropMarks (isMark isTrim : α → Bool) (n : Nat) (xs : List α) : List α :=
  if n = 0 ∨ xs.countP isMark = 0 then xs
  else if xs.countP isMark ≤ n then before isMark 0 xs
  else (before isMark (xs.countP isMark - n) xs).rdropWhile isTrim

variable (k : Nat) {x : α} (xs : List α) {y : α} {ys : List α}

@[simp] theorem before_nil : before isMark k ([] : List α) = [] := rfl

theorem before_cons_mark (h : isMark x = true) (k : Nat) (xs : List α) :
    before isMark (k + 1) (x :: xs) = x :: before isMark k xs := by
  simp [before, h]

theorem before_zero_mark (h : isMark x = true) (xs : List α) : before isMark 0 (x :: xs) = [] := by
  simp [before, h]

theorem before_cons_unmarked (h : isMark x = false) (k : Nat) (xs : List α) :
    before isMark k (x :: xs) = x :: before isMark k xs := by
  cases k <;> simp [before, h]

/-- The position of mark number `k` cuts the list before it. -/
theorem take_findIdxs {xs} {k i : Nat} (h : (xs.findIdxs isMark)[k]? = some i) :
    xs.take i = before isMark k xs := by
  induction xs generalizing k i with
  | nil => simp at h
  | cons x xs ih =>
    rw [List.findIdxs_cons, List.findIdxs_start] at h
    cases hx : isMark x with
    | true =>
      rw [hx, if_pos rfl] at h
      cases k with
      | zero =>
        simp only [List.getElem?_cons_zero, Option.some.injEq] at h
        rw [before_zero_mark hx, ← h, List.take_zero]
      | succ k =>
        simp only [List.getElem?_cons_succ, List.getElem?_map, Option.map_eq_some_iff] at h
        obtain ⟨j, hj, rfl⟩ := h
        rw [before_cons_mark hx, ← ih hj, Nat.zero_add, List.take_succ_cons]
    | false =>
      rw [hx, if_neg (by simp)] at h
      simp only [List.getElem?_map, Option.map_eq_some_iff] at h
      obtain ⟨j, hj, rfl⟩ := h
      rw [before_cons_unmarked hx, ← ih hj, Nat.zero_add, List.take_succ_cons]

theorem before_append (ys : List α) : before isMark k (xs ++ ys) =
      if k < xs.countP isMark then before isMark k xs
      else xs ++ before isMark (k - xs.countP isMark) ys := by
  induction xs generalizing k with
  | nil => simp
  | cons x xs ih =>
    cases hx : isMark x with
    | true =>
      rw [List.countP_cons_of_pos hx, List.cons_append]
      cases k with
      | zero => rw [before_zero_mark hx, before_zero_mark hx, if_pos (by omega)]
      | succ k =>
        rw [before_cons_mark hx, before_cons_mark hx, ih]
        by_cases hk : k < xs.countP isMark
        · rw [if_pos hk, if_pos (by omega)]
        · rw [if_neg hk, if_neg (by omega), show k + 1 - (xs.countP isMark + 1) = k - xs.countP isMark by omega]
          rfl
    | false =>
      rw [List.countP_cons_of_neg (by simp [hx]), List.cons_append, before_cons_unmarked hx,
        before_cons_unmarked hx, ih]
      split <;> rfl

theorem before_zero_append {xs} (h : xs.countP isMark = 0) (ys : List α) :
    before isMark 0 (xs ++ ys) = xs ++ before isMark 0 ys := by
  rw [before_append, if_neg (by omega), h]

/-- The marks before mark number `k` are the first `k` marks. -/
theorem filter_before : (before isMark k xs).filter isMark = (xs.filter isMark).take k := by
  induction xs generalizing k with
  | nil => simp
  | cons x xs ih =>
    cases hx : isMark x with
    | true =>
      cases k with
      | zero => simp [before_zero_mark hx]
      | succ k => simp [before_cons_mark hx, hx, ih]
    | false => simp [before_cons_unmarked hx, hx, ih]

theorem exists_split_of_filter {xs} {n : Nat} (h : (xs.filter isMark)[n]? = some x) :
    ∃ before after, xs = before ++ x :: after ∧ before.countP isMark = n ∧ isMark x = true := by
  obtain ⟨hn, hx⟩ := List.getElem?_eq_some_iff.1 h
  have hsplit : xs.filter isMark = (xs.filter isMark).take n ++ x :: (xs.filter isMark).drop (n + 1) := by
    rw [← hx, ← List.drop_eq_getElem_cons hn, List.take_append_drop]
  obtain ⟨before, rest, rfl, hbefore, hrest⟩ := List.filter_eq_append_iff.1 hsplit
  obtain ⟨unmarked, after, rfl, hunmarked, hmark, -⟩ := List.filter_eq_cons_iff.1 hrest
  refine ⟨before ++ unmarked, after, (List.append_assoc ..).symm, ?_, hmark⟩
  rw [List.countP_append, List.countP_eq_length_filter, hbefore, List.length_take, List.countP_eq_zero.2 hunmarked]
  omega

theorem filter_rdropWhile (h : ∀ x, isMark x = true → isTrim x = false) (xs : List α) :
    (xs.rdropWhile isTrim).filter isMark = xs.filter isMark := by
  induction xs using List.reverseRecOn with
  | nil => rfl
  | append_singleton xs x ih =>
    cases hx : isTrim x with
    | true =>
      have hm : isMark x = false := by
        by_contra hm
        rw [h x (by simpa using hm)] at hx
        cases hx
      rw [List.rdropWhile_concat_pos _ _ _ hx, ih]
      simp [hm]
    | false => rw [List.rdropWhile_concat_neg _ _ _ (by simp [hx])]

/-- Trimming stops at a mark. -/
theorem rdropWhile_append_mark (h : ∀ x, isMark x = true → isTrim x = false) (xs : List α)
    (hy : isMark y = true) (ys : List α) :
    (xs ++ y :: ys).rdropWhile isTrim = xs ++ (y :: ys).rdropWhile isTrim := by
  induction ys using List.reverseRecOn with
  | nil =>
    have hn : ¬ isTrim y = true := by simp [h y hy]
    rw [List.rdropWhile_concat_neg _ _ _ hn]
    exact congrArg (xs ++ ·) (List.rdropWhile_concat_neg _ [] _ hn).symm
  | append_singleton ys z ih =>
    rw [← List.cons_append, ← List.append_assoc]
    cases hz : isTrim z with
    | true => rw [List.rdropWhile_concat_pos _ _ _ hz, List.rdropWhile_concat_pos _ _ _ hz, ih]
    | false =>
      have hn : ¬ isTrim z = true := by simp [hz]
      rw [List.rdropWhile_concat_neg _ _ _ hn, List.rdropWhile_concat_neg _ _ _ hn, List.append_assoc]

theorem rdropWhile_append_of_all {xs} (h : ∀ y ∈ ys, isTrim y = true) :
    (xs ++ ys).rdropWhile isTrim = xs.rdropWhile isTrim := by
  induction ys using List.reverseRecOn with
  | nil => simp
  | append_singleton ys y ih =>
    rw [← List.append_assoc, List.rdropWhile_concat_pos _ _ _ (h y (by simp))]
    exact ih fun z hz => h z (by simp [hz])

/-- **The marks that stay** after the last `n` are dropped are the first ones. -/
theorem filter_dropMarks (h : ∀ x, isMark x = true → isTrim x = false) (n : Nat) (xs : List α) :
    (dropMarks isMark isTrim n xs).filter isMark = (xs.filter isMark).take (xs.countP isMark - n) := by
  have hlen : (xs.filter isMark).length = xs.countP isMark := (List.countP_eq_length_filter ..).symm
  unfold dropMarks
  split
  · next h0 => rw [List.take_of_length_le (by omega)]
  · split
    · next hle => rw [filter_before, show xs.countP isMark - n = 0 by omega]
    · rw [filter_rdropWhile h, filter_before]

theorem countP_dropMarks (h : ∀ x, isMark x = true → isTrim x = false) (n : Nat) (xs : List α) :
    (dropMarks isMark isTrim n xs).countP isMark = xs.countP isMark - n := by
  rw [List.countP_eq_length_filter, filter_dropMarks h, List.length_take, ← List.countP_eq_length_filter]
  omega

theorem before_isPrefix : before isMark k xs <+: xs := by
  induction xs generalizing k with
  | nil => exact List.prefix_rfl
  | cons x xs ih =>
    cases hx : isMark x with
    | true =>
      cases k with
      | zero => rw [before_zero_mark hx]; exact List.nil_prefix
      | succ k => rw [before_cons_mark hx]; exact (List.prefix_cons_inj x).2 (ih k)
    | false => rw [before_cons_unmarked hx]; exact (List.prefix_cons_inj x).2 (ih k)

theorem dropMarks_isPrefix (n : Nat) (xs : List α) : dropMarks isMark isTrim n xs <+: xs := by
  unfold dropMarks
  split
  · exact List.prefix_rfl
  · split
    · exact before_isPrefix 0 xs
    · exact (List.rdropWhile_prefix isTrim _).trans (before_isPrefix _ xs)

/-- A list keeps its first element when fewer marks than it has are dropped. -/
theorem dropMarks_cons (h : ∀ x, isMark x = true → isTrim x = false) {n : Nat}
    (hn : n < (y :: ys).countP isMark) :
    ∃ zs, dropMarks isMark isTrim n (y :: ys) = y :: zs := by
  obtain ⟨rest, hrest⟩ : dropMarks isMark isTrim n (y :: ys) <+: y :: ys := dropMarks_isPrefix n (y :: ys)
  cases hd : dropMarks isMark isTrim n (y :: ys) with
  | nil =>
    have := countP_dropMarks h n (y :: ys)
    rw [hd, List.countP_nil] at this
    omega
  | cons z zs =>
    rw [hd, List.cons_append] at hrest
    exact ⟨zs, by rw [(List.cons.inj hrest).1]⟩

/-- **Dropping fewer marks than a tail has** leaves what is before the tail alone. -/
theorem dropMarks_append (h : ∀ x, isMark x = true → isTrim x = false) (hy : isMark y = true)
    {n : Nat} {xs} (hn : n < (y :: ys).countP isMark) :
    dropMarks isMark isTrim n (xs ++ y :: ys) = xs ++ dropMarks isMark isTrim n (y :: ys) := by
  unfold dropMarks
  rw [List.countP_append]
  by_cases h0 : n = 0
  · simp [h0]
  · rw [if_neg (by omega), if_neg (by omega), if_neg (by omega), if_neg (by omega), before_append,
      if_neg (by omega),
      show xs.countP isMark + (y :: ys).countP isMark - n - xs.countP isMark = (y :: ys).countP isMark - n by omega]
    obtain ⟨k, hk⟩ : ∃ k, (y :: ys).countP isMark - n = k + 1 := ⟨(y :: ys).countP isMark - n - 1, by omega⟩
    rw [hk, before_cons_mark hy, rdropWhile_append_mark h xs hy]

/-- Dropping the one mark of a tail whose elements before it can all be trimmed. -/
theorem dropMarks_one_append (h : ∀ x, isMark x = true → isTrim x = false) {xs pre post}
    (hpre : ∀ x ∈ pre, isTrim x = true) (hy : isMark y = true) (hpost : post.countP isMark = 0) :
    dropMarks isMark isTrim 1 (xs ++ (pre ++ y :: post)) =
      if xs.countP isMark = 0 then xs ++ pre else xs.rdropWhile isTrim := by
  have hpre0 : pre.countP isMark = 0 := by
    rw [List.countP_eq_zero]
    intro x hx hm
    exact absurd (h x hm) (by simp [hpre x hx])
  have hcount : (xs ++ (pre ++ y :: post)).countP isMark = xs.countP isMark + 1 := by
    simp [hpre0, hy, hpost]
  unfold dropMarks
  rw [hcount, if_neg (by omega)]
  by_cases hx : xs.countP isMark = 0
  · rw [if_pos (by omega), if_pos hx, before_zero_append hx, before_zero_append hpre0, before_zero_mark hy,
      List.append_nil]
  · rw [if_neg (by omega), if_neg hx, Nat.add_sub_cancel, before_append, if_neg (by omega), Nat.sub_self,
      before_zero_append hpre0, before_zero_mark hy, List.append_nil, rdropWhile_append_of_all hpre]

/-- Where a mark is still there, a list is cut before it as what it begins is. -/
theorem before_of_isPrefix {xs} (h : ys <+: xs) {k : Nat} (hk : k < ys.countP isMark) :
    before isMark k ys = before isMark k xs := by
  obtain ⟨zs, rfl⟩ := h
  rw [before_append, if_pos hk]

/-- What a cut before a mark leaves out begins with that mark. -/
theorem exists_before_append (isMark : α → Bool) (k : Nat) (xs : List α) :
    ∃ after, xs = before isMark k xs ++ after ∧ ∀ x ∈ after.head?, isMark x = true := by
  induction xs generalizing k with
  | nil => exact ⟨[], rfl, by simp⟩
  | cons x xs ih =>
    cases hx : isMark x with
    | true =>
      cases k with
      | zero => exact ⟨x :: xs, by rw [before_zero_mark hx, List.nil_append], by simpa using hx⟩
      | succ k =>
        obtain ⟨after, hxs, hafter⟩ := ih k
        exact ⟨after, by rw [before_cons_mark hx, List.cons_append, ← hxs], hafter⟩
    | false =>
      obtain ⟨after, hxs, hafter⟩ := ih k
      exact ⟨after, by rw [before_cons_unmarked hx, List.cons_append, ← hxs], hafter⟩

theorem exists_rdropWhile_append (isTrim : α → Bool) (xs : List α) :
    ∃ trimmed, xs = xs.rdropWhile isTrim ++ trimmed ∧ ∀ x ∈ trimmed, isTrim x = true := by
  induction xs using List.reverseRecOn with
  | nil => exact ⟨[], rfl, by simp⟩
  | append_singleton xs x ih =>
    cases hx : isTrim x with
    | true =>
      obtain ⟨trimmed, hxs, htrimmed⟩ := ih
      refine ⟨trimmed ++ [x], ?_, by simpa [or_imp, forall_and, hx] using htrimmed⟩
      rw [List.rdropWhile_concat_pos _ _ _ hx, ← List.append_assoc, ← hxs]
    | false => exact ⟨[], by rw [List.rdropWhile_concat_neg _ _ _ (by simp [hx]), List.append_nil], by simp⟩

/-- **What is dropped**: elements that may be trimmed, then the last marks with what follows them. -/
theorem exists_dropMarks_append (h : ∀ x, isMark x = true → isTrim x = false) (n : Nat) (xs : List α) :
    ∃ trimmed dropped, xs = dropMarks isMark isTrim n xs ++ trimmed ++ dropped ∧
      (∀ x ∈ trimmed, isTrim x = true) ∧ (∀ x ∈ dropped.head?, isMark x = true) ∧
      dropped.countP isMark = min n (xs.countP isMark) := by
  suffices hsplit : ∃ trimmed dropped, xs = dropMarks isMark isTrim n xs ++ trimmed ++ dropped ∧
      (∀ x ∈ trimmed, isTrim x = true) ∧ ∀ x ∈ dropped.head?, isMark x = true by
    obtain ⟨trimmed, dropped, hxs, htrimmed, hdropped⟩ := hsplit
    refine ⟨trimmed, dropped, hxs, htrimmed, hdropped, ?_⟩
    have htrimmed0 : trimmed.countP isMark = 0 := by
      rw [List.countP_eq_zero]
      intro x hx hm
      exact absurd (h x hm) (by simp [htrimmed x hx])
    have hcount := congrArg (List.countP isMark) hxs
    rw [List.countP_append, List.countP_append, countP_dropMarks h, htrimmed0] at hcount
    omega
  unfold dropMarks
  split
  · exact ⟨[], [], by simp, by simp, by simp⟩
  · split
    · obtain ⟨after, hxs, hafter⟩ := exists_before_append isMark 0 xs
      exact ⟨[], after, by rw [List.append_nil, ← hxs], by simp, hafter⟩
    · obtain ⟨after, hxs, hafter⟩ := exists_before_append isMark (xs.countP isMark - n) xs
      obtain ⟨trimmed, hbefore, htrimmed⟩ :=
        exists_rdropWhile_append isTrim (before isMark (xs.countP isMark - n) xs)
      exact ⟨trimmed, after, by rw [← hbefore, ← hxs], htrimmed, hafter⟩

theorem dropMarks_of_countP_eq_zero {xs} (h : xs.countP isMark = 0) (n : Nat) :
    dropMarks isMark isTrim n xs = xs := if_pos (.inr h)

theorem dropMarks_of_le {xs} {n : Nat} (h0 : xs.countP isMark ≠ 0) (h : xs.countP isMark ≤ n) :
    dropMarks isMark isTrim n xs = before isMark 0 xs := by
  rw [dropMarks, if_neg (by omega), if_pos h]

theorem dropMarks_of_lt {xs} {n : Nat} (h0 : n ≠ 0) (h : n < xs.countP isMark) :
    dropMarks isMark isTrim n xs = (before isMark (xs.countP isMark - n) xs).rdropWhile isTrim := by
  rw [dropMarks, if_neg (by omega), if_neg (by omega)]

/-- **Marks dropped in two goes**: the trimming between them takes no mark and leaves the cut where it is. -/
theorem dropMarks_dropMarks (h : ∀ x, isMark x = true → isTrim x = false) (n m : Nat) (xs : List α) :
    dropMarks isMark isTrim m (dropMarks isMark isTrim n xs) = dropMarks isMark isTrim (n + m) xs := by
  have hcount := countP_dropMarks h n xs
  have hprefix : dropMarks isMark isTrim n xs <+: xs := dropMarks_isPrefix n xs
  by_cases hm : m = 0
  · rw [hm, dropMarks, if_pos (.inl rfl), Nat.add_zero]
  by_cases hall : xs.countP isMark ≤ n
  · -- the first go has dropped all marks there are
    rw [dropMarks_of_countP_eq_zero (by omega)]
    by_cases h0 : xs.countP isMark = 0
    · rw [dropMarks_of_countP_eq_zero h0, dropMarks_of_countP_eq_zero h0]
    · rw [dropMarks_of_le h0 hall, dropMarks_of_le h0 (by omega)]
  · generalize dropMarks isMark isTrim n xs = ys at hcount hprefix ⊢
    by_cases hrest : xs.countP isMark - n ≤ m
    · rw [dropMarks_of_le (by omega) (hcount ▸ hrest), before_of_isPrefix hprefix (by omega),
        dropMarks_of_le (by omega) (by omega)]
    · have hboth : dropMarks isMark isTrim (n + m) xs =
          (before isMark (xs.countP isMark - (n + m)) xs).rdropWhile isTrim := dropMarks_of_lt (by omega) (by omega)
      rw [dropMarks_of_lt hm (by omega), hcount, before_of_isPrefix hprefix (by omega), Nat.sub_sub, hboth]

end MarkedList
