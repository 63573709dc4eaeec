/-
Two readings of one sequence of pushes and pops. The full stack keeps every
element and a pop counts every element; the marked stack keeps the marked
elements and the same pop counts those. They hold the same marked elements
until a pop takes an unmarked element off the full stack and leaves a marked
one; from then on they differ for as long as a marked element is left.
-/
import Mathlib.Data.List.DropRight
import Mathlib.Data.List.Induction
import Mathlib.Data.List.NodupEquivFin
import Mathlib.Order.WellFounded
import Mathlib.Tactic.Common

namespace MarkedStack

variable {α : Type*}

inductive StackOp (α : Type*) where
  | push (x : α)
  | pop (n : Nat)

/-- A list without its last `n` elements. -/
def popped (s : List α) (n : Nat) : List α := s.take (s.length - n)

def step (s : List α) : StackOp α → List α
  | .push x => s ++ [x]
  | .pop n => popped s n

def run (ops : List (StackOp α)) : List α := ops.foldl step []

variable (mark : α → Bool)

def markedStep (s : List α) : StackOp α → List α
  | .push x => if mark x then s ++ [x] else s
  | .pop n => popped s n

def runMarked (ops : List (StackOp α)) : List α := ops.foldl (markedStep mark) []

/-- Some pop takes an unmarked element off, and a marked one is left then and ever after. -/
def Drifts (ops : List (StackOp α)) : Prop :=
  ∃ before n after, ops = before ++ .pop n :: after ∧ (∃ x ∈ (run before).drop ((run before).length - n), mark x = false) ∧
    ∀ later, later <+: after → ∃ x ∈ run (before ++ .pop n :: later), mark x = true

variable {mark}

variable (ops : List (StackOp α)) (s : List α) (n : Nat)

theorem run_append_singleton (op : StackOp α) : run (ops ++ [op]) = step (run ops) op := by
  simp [run]

theorem runMarked_append_singleton (op : StackOp α) :
    runMarked mark (ops ++ [op]) = markedStep mark (runMarked mark ops) op := by
  simp [runMarked]

theorem mem_run {ops} {x : α} (h : x ∈ run ops) : StackOp.push x ∈ ops := by
  induction ops using List.reverseRecOn with
  | nil => cases h
  | append_singleton ops op ih =>
    rw [run_append_singleton] at h
    cases op with
    | push y =>
      rcases List.mem_append.1 h with h | h
      · simp [ih h]
      · simp [List.mem_singleton.1 h]
    | pop n => simp [ih (List.mem_of_mem_take h)]

theorem mem_runMarked {ops} {x : α} (h : x ∈ runMarked mark ops) :
    mark x = true ∧ StackOp.push x ∈ ops := by
  induction ops using List.reverseRecOn with
  | nil => cases h
  | append_singleton ops op ih =>
    rw [runMarked_append_singleton] at h
    cases op with
    | push y =>
      simp only [markedStep] at h
      split at h
      · next hy =>
        rcases List.mem_append.1 h with h | h
        · simp [ih h]
        · simp [List.mem_singleton.1 h, hy]
      · simp [ih h]
    | pop n => simp [ih (List.mem_of_mem_take h)]

theorem length_popped : (popped s n).length = s.length - n := by
  rw [popped, List.length_take]
  omega

/-- The marked elements a pop leaves. -/
theorem filter_popped :
    (popped s n).filter mark = popped (s.filter mark) ((s.drop (s.length - n)).countP mark) := by
  have hsplit : s.filter mark = (popped s n).filter mark ++ (s.drop (s.length - n)).filter mark := by
    rw [← List.filter_append, popped, List.take_append_drop]
  conv_rhs => rw [popped, hsplit]
  rw [List.length_append, List.countP_eq_length_filter, Nat.add_sub_cancel, List.take_left]

theorem countP_dropped_le : (s.drop (s.length - n)).countP mark ≤ n := by
  have hlen : (s.drop (s.length - n)).countP mark ≤ (s.drop (s.length - n)).length := List.countP_le_length
  rw [List.length_drop] at hlen
  omega

/-- **The full stack never has fewer marked elements**, and where it has as many they are the same. -/
theorem filter_run : (runMarked mark ops).length ≤ ((run ops).filter mark).length ∧
      ((runMarked mark ops).length = ((run ops).filter mark).length → runMarked mark ops = (run ops).filter mark) := by
  induction ops using List.reverseRecOn with
  | nil => exact ⟨Nat.le_refl _, fun _ => rfl⟩
  | append_singleton ops op ih =>
    obtain ⟨hle, heq⟩ := ih
    rw [run_append_singleton, runMarked_append_singleton]
    cases op with
    | push x =>
      simp only [step, markedStep, List.filter_append]
      cases hx : mark x with
      | true =>
        simp only [if_true, List.filter_cons_of_pos hx, List.filter_nil, List.length_append]
        exact ⟨by omega, fun h => by rw [heq (by omega)]⟩
      | false =>
        simp only [Bool.false_eq_true, if_false, List.filter_cons_of_neg (by simp [hx] : ¬ mark x = true),
          List.filter_nil, List.append_nil]
        exact ⟨hle, heq⟩
    | pop n =>
      simp only [step, markedStep]
      rw [filter_popped, length_popped, length_popped]
      have hm : ((run ops).drop ((run ops).length - n)).countP mark ≤ n := countP_dropped_le (run ops) n
      generalize ((run ops).drop ((run ops).length - n)).countP mark = m at hm ⊢
      refine ⟨by omega, fun h => ?_⟩
      -- Unless both are empty, as many were taken off each.
      by_cases h0 : (runMarked mark ops).length ≤ n
      · simp [popped, Nat.sub_eq_zero_of_le h0, ← h]
      · rw [heq (by omega), show m = n by omega]

theorem popped_sublist {s t : List α} (h : s.Sublist t) (n : Nat) : (popped s n).Sublist (popped t n) := by
  have hdropped := (h.reverse.drop n).reverse
  rwa [← List.rdrop_eq_reverse_drop_reverse, ← List.rdrop_eq_reverse_drop_reverse] at hdropped

/-- Whatever the marked stack holds, the full one does, in the same order. -/
theorem runMarked_sublist : (runMarked mark ops).Sublist ((run ops).filter mark) := by
  induction ops using List.reverseRecOn with
  | nil => exact .slnil
  | append_singleton ops op ih =>
    rw [run_append_singleton, runMarked_append_singleton]
    cases op with
    | push x =>
      simp only [step, markedStep, List.filter_append]
      cases hx : mark x with
      | true =>
        rw [if_pos rfl, List.filter_cons_of_pos hx]
        exact ih.append (List.Sublist.refl _)
      | false =>
        rw [if_neg Bool.false_ne_true, List.filter_cons_of_neg (ne_true_of_eq_false hx), List.filter_nil, List.append_nil]
        exact ih
    | pop n =>
      simp only [step, markedStep]
      rw [filter_popped]
      have hm : ((run ops).drop ((run ops).length - n)).countP mark ≤ n := countP_dropped_le (run ops) n
      refine (popped_sublist ih n).trans ?_
      exact (List.take_prefix_take_left (Nat.sub_le_sub_left hm _)).sublist

theorem run_eq_iff_length :
    runMarked mark ops = (run ops).filter mark ↔ (runMarked mark ops).length = ((run ops).filter mark).length :=
  ⟨congrArg _, (filter_run ops).2⟩

/-- A sublist of distinct elements has the element at an index exactly if it has those before it, too. -/
theorem getElem?_eq_iff_of_sublist {s t : List α} (h : s.Sublist t) (hnodup : t.Nodup) {n : Nat} (hn : n < t.length) :
    s[n]? = t[n]? ↔ ∀ x ∈ t.take (n + 1), x ∈ s := by
  constructor
  · intro heq x hx
    obtain ⟨f, hf⟩ := List.sublist_iff_exists_orderEmbedding_getElem?_eq.1 h
    have hfixed : f n = n := ((List.getElem?_inj hn hnodup).1 (by rw [← heq, hf])).symm
    obtain ⟨i, hi, hx⟩ := List.mem_take_iff_getElem.1 hx
    -- Up to an index that the embedding fixes it fixes every index.
    have hle : i ≤ f i := StrictMono.le_apply f.strictMono
    have hge : f i ≤ i := by
      have hgap := f.strictMono.add_le_nat (n - i) i
      rw [Nat.sub_add_cancel (by omega), hfixed] at hgap
      omega
    refine List.mem_of_getElem? (i := i) ?_
    rw [hf, Nat.le_antisymm hge hle, List.getElem?_eq_getElem (by omega), hx]
  · intro hall
    induction h generalizing n with
    | slnil => rfl
    | @cons s t x hsub ih =>
      obtain ⟨hx, -⟩ := List.nodup_cons.1 hnodup
      exact absurd (hsub.subset (hall x (by rw [List.take_succ_cons]; exact List.mem_cons_self))) hx
    | @cons_cons s t x hsub ih =>
      obtain ⟨hx, hnodup⟩ := List.nodup_cons.1 hnodup
      cases n with
      | zero => rfl
      | succ n =>
        rw [List.length_cons] at hn
        refine ih hnodup (by omega) fun y hy => ?_
        have hmem := hall y (by rw [List.take_succ_cons]; exact List.mem_cons_of_mem _ hy)
        refine (List.mem_cons.1 hmem).resolve_left ?_
        rintro rfl
        exact hx (List.mem_of_mem_take hy)

/-- What a pop does to the agreement of the two stacks. -/
theorem agrees_pop : runMarked mark (ops ++ [.pop n]) = (run (ops ++ [.pop n])).filter mark ↔
      (∃ x ∈ run (ops ++ [.pop n]), mark x = true) →
        runMarked mark ops = (run ops).filter mark ∧ ∀ x ∈ (run ops).drop ((run ops).length - n), mark x = true := by
  have hle : (runMarked mark ops).length ≤ ((run ops).filter mark).length := (filter_run ops).1
  have hm : ((run ops).drop ((run ops).length - n)).countP mark ≤ n := countP_dropped_le (run ops) n
  have hleft : (∃ x ∈ popped (run ops) n, mark x = true) ↔
      0 < ((run ops).filter mark).length - ((run ops).drop ((run ops).length - n)).countP mark := by
    rw [← List.countP_pos_iff, List.countP_eq_length_filter, filter_popped, length_popped]
  have hall : (∀ x ∈ (run ops).drop ((run ops).length - n), mark x = true) ↔
      ((run ops).drop ((run ops).length - n)).countP mark = (run ops).length - ((run ops).length - n) := by
    rw [← List.countP_eq_length, List.length_drop]
  have hcount : ((run ops).filter mark).length - ((run ops).drop ((run ops).length - n)).countP mark ≤
      (run ops).length - n := by
    rw [← length_popped, ← filter_popped, ← length_popped]
    exact List.length_filter_le ..
  rw [run_eq_iff_length, run_eq_iff_length, run_append_singleton, runMarked_append_singleton]
  simp only [step, markedStep]
  rw [filter_popped, length_popped, length_popped, hleft, hall]
  omega

theorem agrees_push (x : α) : runMarked mark (ops ++ [.push x]) = (run (ops ++ [.push x])).filter mark ↔
      runMarked mark ops = (run ops).filter mark := by
  rw [run_append_singleton, runMarked_append_singleton]
  simp only [step, markedStep, List.filter_append]
  cases hx : mark x with
  | true => simp [hx]
  | false => simp [hx]

theorem drifts_push (x : α) : Drifts mark (ops ++ [.push x]) ↔ Drifts mark ops := by
  constructor
  · rintro ⟨before, n, after, hops, hdrop, hleft⟩
    rcases List.eq_nil_or_concat after with rfl | ⟨after, op, rfl⟩
    · cases List.append_inj_right' hops rfl
    · rw [List.concat_eq_append, ← List.cons_append, ← List.append_assoc] at hops
      obtain ⟨rfl, -⟩ := List.append_inj' hops rfl
      exact ⟨before, n, after, rfl, hdrop, fun later hl => hleft later (hl.trans (by simp))⟩
  · rintro ⟨before, n, after, rfl, hdrop, hleft⟩
    refine ⟨before, n, after ++ [.push x], by simp, hdrop, fun later hl => ?_⟩
    rcases List.prefix_concat_iff.1 hl with rfl | hl
    · obtain ⟨y, hy, hm⟩ := hleft after List.prefix_rfl
      refine ⟨y, ?_, hm⟩
      rw [← List.cons_append, ← List.append_assoc, run_append_singleton]
      exact List.mem_append_left _ hy
    · exact hleft later hl

theorem drifts_pop : Drifts mark (ops ++ [.pop n]) ↔ (∃ x ∈ run (ops ++ [.pop n]), mark x = true) ∧
      (Drifts mark ops ∨ ∃ x ∈ (run ops).drop ((run ops).length - n), mark x = false) := by
  constructor
  · rintro ⟨before, m, after, hops, hdrop, hleft⟩
    refine ⟨?_, ?_⟩
    · rw [hops]
      exact hleft after List.prefix_rfl
    · rcases List.eq_nil_or_concat after with rfl | ⟨after, op, rfl⟩
      · obtain ⟨rfl, ⟨⟩⟩ := List.append_inj' hops rfl
        exact .inr hdrop
      · rw [List.concat_eq_append, ← List.cons_append, ← List.append_assoc] at hops
        obtain ⟨rfl, -⟩ := List.append_inj' hops rfl
        exact .inl ⟨before, m, after, rfl, hdrop, fun later hl => hleft later (hl.trans (by simp))⟩
  · rintro ⟨hmarked, ⟨before, m, after, rfl, hdrop, hleft⟩ | hdrop⟩
    · refine ⟨before, m, after ++ [.pop n], by simp, hdrop, fun later hl => ?_⟩
      rcases List.prefix_concat_iff.1 hl with rfl | hl
      · rw [← List.cons_append, ← List.append_assoc]
        exact hmarked
      · exact hleft later hl
    · refine ⟨ops, n, [], rfl, hdrop, fun later hl => ?_⟩
      rw [List.prefix_nil.1 hl]
      exact hmarked

/-- **The two readings agree** on the marked elements unless they have drifted apart. -/
theorem agrees_iff : runMarked mark ops = (run ops).filter mark ↔ ¬ Drifts mark ops := by
  induction ops using List.reverseRecOn with
  | nil =>
    refine iff_of_true rfl ?_
    rintro ⟨before, n, after, hops, -⟩
    simp at hops
  | append_singleton ops op ih =>
    cases op with
    | push x => rw [agrees_push, drifts_push, ih]
    | pop n =>
      rw [agrees_pop, drifts_pop, ih, not_and, not_or]
      simp only [not_exists, not_and, Bool.not_eq_false]

end MarkedStack
