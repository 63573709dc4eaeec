/-
The newest elements of a list that fit a page: at most so many, and at most so much in
size; a newest element that is too large is a page of its own. Two ways to it are the
same: a window that slides over the elements, oldest first, and collecting them, newest
first, until one does not fit.
-/
import Mathlib.Algebra.Order.Ring.Int
import Mathlib.Data.List.Induction
import Mathlib.Tactic.Common

namespace NewestPage

variable {α : Type} (size : α → Nat)

def total (xs : List α) : Nat := (xs.map size).sum

/-- The longest start of the list that fits. -/
def fitting : Nat → Nat → List α → List α
  | _, _, [] => []
  | rows, bytes, x :: xs => if rows = 0 ∨ bytes < size x then [] else x :: fitting (rows - 1) (bytes - size x) xs

variable (maxRows maxBytes : Nat)

/-- The page of a list, newest first. -/
def page : List α → List α
  | [] => []
  | x :: xs => if maxBytes < size x then [x] else fitting size maxRows maxBytes (x :: xs)

/-- A window, oldest first, without its old end for as long as it does not fit. -/
def popOver : List α → Nat → List α × Nat
  | [], bytes => ([], bytes)
  | x :: xs, bytes =>
    if maxRows < (x :: xs).length ∨ maxBytes < bytes then popOver xs (bytes - size x) else (x :: xs, bytes)

def push (window : List α × Nat) (x : α) : List α × Nat :=
  if maxBytes < size x then ([x], size x) else popOver size maxRows maxBytes (window.1 ++ [x]) (window.2 + size x)

/-- Elements, newest first, added to those kept until one does not fit. -/
def collect : List α → Nat → List α → List α
  | kept, _, [] => kept
  | kept, bytes, x :: xs =>
    if kept.isEmpty ∧ maxBytes < size x then kept ++ [x]
    else if kept.length = maxRows ∨ maxBytes < bytes + size x then kept
    else collect (kept ++ [x]) (bytes + size x) xs

variable {size maxRows maxBytes} {xs : List α}

theorem total_cons (x : α) (xs : List α) : total size (x :: xs) = size x + total size xs := by
  rfl

theorem total_append (xs ys : List α) : total size (xs ++ ys) = total size xs + total size ys := by
  rw [total, List.map_append, List.sum_append]
  rfl

theorem total_reverse (xs : List α) : total size xs.reverse = total size xs := by
  rw [total, List.map_reverse, List.sum_reverse]
  rfl

/-! ## What fits -/

theorem fitting_eq_self {rows bytes : Nat} (hrows : xs.length ≤ rows) (hbytes : total size xs ≤ bytes) :
    fitting size rows bytes xs = xs := by
  induction xs generalizing rows bytes with
  | nil => rfl
  | cons x xs ih =>
    rw [total_cons] at hbytes
    rw [List.length_cons] at hrows
    rw [fitting, if_neg (by omega), ih (by omega) (by omega)]

theorem fitting_concat {rows bytes : Nat} (x : α) (h : rows < (xs ++ [x]).length ∨ bytes < total size (xs ++ [x])) :
    fitting size rows bytes (xs ++ [x]) = fitting size rows bytes xs := by
  induction xs generalizing rows bytes with
  | nil =>
    rw [List.nil_append, List.length_singleton, total_cons] at h
    exact if_pos (h.imp (fun h => by omega) fun h => by simpa [total] using h)
  | cons y xs ih =>
    rw [List.cons_append, List.length_cons, total_cons] at h
    rw [List.cons_append, fitting, fitting]
    split
    · rfl
    · rw [ih (by omega)]

theorem fitting_fitting {rows bytes rows' bytes' : Nat} (hrows : rows ≤ rows') (hbytes : bytes ≤ bytes') (xs : List α) :
    fitting size rows bytes (fitting size rows' bytes' xs) = fitting size rows bytes xs := by
  induction xs generalizing rows bytes rows' bytes' with
  | nil => rfl
  | cons x xs ih =>
    by_cases h : rows' = 0 ∨ bytes' < size x
    · rw [fitting, if_pos h, fitting, fitting, if_pos (by omega)]
    · rw [fitting, if_neg h, fitting, fitting]
      split
      · rfl
      · rw [ih (by omega) (by omega)]

theorem fitting_prefix (rows bytes : Nat) (xs : List α) : fitting size rows bytes xs <+: xs := by
  induction xs generalizing rows bytes with
  | nil => exact List.prefix_rfl
  | cons x xs ih =>
    rw [fitting]
    split
    · exact List.nil_prefix
    · exact List.cons_prefix_cons.2 ⟨rfl, ih ..⟩

theorem fitting_bounded (rows bytes : Nat) (xs : List α) :
    (fitting size rows bytes xs).length ≤ rows ∧ total size (fitting size rows bytes xs) ≤ bytes := by
  induction xs generalizing rows bytes with
  | nil => exact ⟨Nat.zero_le _, Nat.zero_le _⟩
  | cons x xs ih =>
    rw [fitting]
    split
    · exact ⟨Nat.zero_le _, Nat.zero_le _⟩
    · obtain ⟨hrows, hbytes⟩ := ih (rows - 1) (bytes - size x)
      rw [List.length_cons, total_cons]
      omega

/-! ## Pages -/

theorem prefix_page (xs : List α) : page size maxRows maxBytes xs <+: xs := by
  cases xs with
  | nil => exact List.prefix_rfl
  | cons x xs =>
    rw [page]
    split
    · exact List.cons_prefix_cons.2 ⟨rfl, List.nil_prefix⟩
    · exact fitting_prefix ..

theorem page_ne_nil (hrows : 0 < maxRows) (h : xs ≠ []) : page size maxRows maxBytes xs ≠ [] := by
  cases xs with
  | nil => exact absurd rfl h
  | cons x xs =>
    rw [page]
    split
    · exact List.cons_ne_nil x []
    next hfits =>
      rw [fitting, if_neg (by omega)]
      exact List.cons_ne_nil x _

/-- **A page keeps both bounds**, or it is one element. -/
theorem page_bounded (xs : List α) : (page size maxRows maxBytes xs).length = 1 ∨
    (page size maxRows maxBytes xs).length ≤ maxRows ∧ total size (page size maxRows maxBytes xs) ≤ maxBytes := by
  cases xs with
  | nil => exact .inr ⟨Nat.zero_le _, Nat.zero_le _⟩
  | cons x xs =>
    rw [page]
    split
    · exact .inl rfl
    · exact .inr (fitting_bounded ..)

/-! ## The window -/

theorem popOver_eq (xs : List α) : popOver size maxRows maxBytes xs (total size xs) =
    ((fitting size maxRows maxBytes xs.reverse).reverse, total size (fitting size maxRows maxBytes xs.reverse)) := by
  induction xs with
  | nil => rfl
  | cons x xs ih =>
    rw [popOver, List.reverse_cons]
    split
    next hover =>
      rw [fitting_concat x, ← ih, total_cons, Nat.add_sub_cancel_left]
      rwa [← List.reverse_cons, List.length_reverse, total_reverse]
    next hfits =>
      rw [← List.reverse_cons, fitting_eq_self, List.reverse_reverse, total_reverse]
      · rw [List.length_reverse]
        omega
      · rw [total_reverse]
        omega

theorem fitting_page {rows bytes : Nat} (hrows : rows ≤ maxRows) (hbytes : bytes ≤ maxBytes) (xs : List α) :
    fitting size rows bytes (page size maxRows maxBytes xs) = fitting size rows bytes xs := by
  cases xs with
  | nil => rfl
  | cons x xs =>
    rw [page]
    split
    · rw [fitting, fitting, if_pos (by omega)]
      exact (if_pos (by omega)).symm
    · exact fitting_fitting hrows hbytes _

/-- **The window is the page**, oldest first. -/
theorem foldl_push (xs : List α) : xs.foldl (push size maxRows maxBytes) ([], 0) =
    ((page size maxRows maxBytes xs.reverse).reverse, total size (page size maxRows maxBytes xs.reverse)) := by
  induction xs using List.reverseRecOn with
  | nil => rfl
  | append_singleton xs x ih =>
    rw [List.foldl_append, ih, List.reverse_append]
    show push size maxRows maxBytes _ x =
      ((page size maxRows maxBytes (x :: xs.reverse)).reverse, total size (page size maxRows maxBytes (x :: xs.reverse)))
    rw [push, page]
    split
    · rw [total_cons]
      rfl
    next hfits =>
      have hpage : fitting size maxRows maxBytes (x :: page size maxRows maxBytes xs.reverse) =
          fitting size maxRows maxBytes (x :: xs.reverse) := by
        rw [fitting, fitting]
        split
        · rfl
        · rw [fitting_page (by omega) (by omega)]
      have hpopped := @popOver_eq α size maxRows maxBytes ((page size maxRows maxBytes xs.reverse).reverse ++ [x])
      rw [List.reverse_append, List.reverse_reverse, List.reverse_singleton, List.singleton_append, hpage, total_append,
        total_reverse] at hpopped
      exact hpopped

/-! ## Collecting -/

theorem collect_of_kept {kept} {bytes : Nat} (hkept : kept ≠ []) (hrows : kept.length ≤ maxRows)
    (hbytes : bytes ≤ maxBytes) (xs : List α) :
    collect size maxRows maxBytes kept bytes xs = kept ++ fitting size (maxRows - kept.length) (maxBytes - bytes) xs := by
  induction xs generalizing kept bytes with
  | nil => exact (List.append_nil _).symm
  | cons x xs ih =>
    have hempty : kept.isEmpty = false := List.isEmpty_eq_false_iff.2 hkept
    rw [collect, if_neg (by simp [hempty]), fitting]
    by_cases hover : kept.length = maxRows ∨ maxBytes < bytes + size x
    · rw [if_pos hover, if_pos (by omega), List.append_nil]
    · rw [if_neg hover, if_neg (by omega), ih (by simp) (by rw [List.length_append, List.length_singleton]; omega) (by omega),
        List.append_assoc, List.length_append, List.length_singleton, Nat.sub_sub, Nat.sub_sub]
      rfl

/-- **What is collected is the page.** -/
theorem collect_eq_page (hrows : 0 < maxRows) (xs : List α) :
    collect size maxRows maxBytes [] 0 xs = page size maxRows maxBytes xs := by
  cases xs with
  | nil => rfl
  | cons x xs =>
    rw [collect, page]
    by_cases hover : maxBytes < size x
    · rw [if_pos ⟨rfl, hover⟩, if_pos hover]
      rfl
    · have hfits : ¬ (([] : List α).length = maxRows ∨ maxBytes < 0 + size x) := by
        rw [List.length_nil]
        omega
      rw [if_neg (fun h => hover h.2), if_neg hfits, if_neg hover, List.nil_append,
        collect_of_kept (List.cons_ne_nil x []) hrows (by omega), fitting, if_neg (by omega), Nat.zero_add]
      rfl

end NewestPage
