/-
Stretches of a list replaced by others. Splices that stand in the order of the list and do not
overlap may be put in from the last to the first, as each leaves the places before it as they
are, and give what writing the list anew from the left gives (`foldr_apply`).
-/
import Mathlib.Data.List.Sort
import Mathlib.Tactic.Common

namespace Splices

variable {α : Type*}

/-- A stretch of a list and what is to stand there. -/
structure Splice (α : Type*) where
  start : Nat
  len : Nat
  text : List α

def Splice.apply (s : Splice α) (xs : List α) : List α := xs.take s.start ++ s.text ++ xs.drop (s.start + s.len)

/-- Each splice is behind the one before it. -/
def InOrder (xs : List α) : Nat → List (Splice α) → Prop
  | _, [] => True
  | cursor, s :: rest => cursor ≤ s.start ∧ s.start + s.len ≤ xs.length ∧ InOrder xs (s.start + s.len) rest

/-- The list from the cursor on, with the splices put in from the left. -/
def rewrite (xs : List α) : Nat → List (Splice α) → List α
  | cursor, [] => xs.drop cursor
  | cursor, s :: rest => (xs.drop cursor).take (s.start - cursor) ++ (s.text ++ rewrite xs (s.start + s.len) rest)

/-- **From the right and from the left.** -/
theorem foldr_apply {xs : List α} {cursor : Nat} {splices} (h : InOrder xs cursor splices)
    (hcursor : cursor ≤ xs.length) :
    splices.foldr Splice.apply xs = xs.take cursor ++ rewrite xs cursor splices := by
  induction splices generalizing cursor with
  | nil => exact (List.take_append_drop cursor xs).symm
  | cons s rest ih =>
    obtain ⟨hstart, hend, hrest⟩ := h
    rw [List.foldr_cons, ih hrest hend, rewrite, Splice.apply]
    have hlength : (xs.take (s.start + s.len)).length = s.start + s.len := List.length_take_of_le hend
    have hbefore : (xs.take (s.start + s.len) ++ rewrite xs (s.start + s.len) rest).take s.start = xs.take s.start := by
      rw [List.take_append_of_le_length (by omega), List.take_take, Nat.min_eq_left (by omega)]
    have hafter : (xs.take (s.start + s.len) ++ rewrite xs (s.start + s.len) rest).drop (s.start + s.len) =
        rewrite xs (s.start + s.len) rest := List.drop_left' hlength
    have hkept : xs.take cursor ++ (xs.drop cursor).take (s.start - cursor) = xs.take s.start := by
      rw [← List.take_add, Nat.add_sub_cancel' hstart]
    rw [hbefore, hafter, ← List.append_assoc (xs.take cursor), hkept, List.append_assoc]

theorem InOrder.start_le {xs : List α} {cursor : Nat} {splices} (h : InOrder xs cursor splices) :
    ∀ s ∈ splices, cursor ≤ s.start := by
  induction splices generalizing cursor with
  | nil => exact List.forall_mem_nil _
  | cons s rest ih =>
    obtain ⟨hstart, -, hrest⟩ := h
    refine List.forall_mem_cons.2 ⟨hstart, ?_⟩
    intro t ht
    have hnext := ih hrest t ht
    omega

theorem InOrder.pairwise {xs : List α} {cursor : Nat} {splices} (h : InOrder xs cursor splices) :
    splices.Pairwise fun s t => s.start ≤ t.start := by
  induction splices generalizing cursor with
  | nil => exact .nil
  | cons s rest ih =>
    refine .cons ?_ (ih h.2.2)
    intro t ht
    have hnext := h.2.2.start_le t ht
    omega

/-- An insertion between two stretches. -/
theorem insertIdx_append (xs ys : List α) (y : α) : (xs ++ ys).insertIdx xs.length y = xs ++ y :: ys := by
  induction xs with
  | nil => rfl
  | cons x xs ih => rw [List.cons_append, List.length_cons, List.insertIdx_succ_cons, ih, List.cons_append]

/-- **Elements put behind others by their index**, from the last to the first, stand behind them. -/
theorem foldr_insertIdx (f : α → Option α) (xs done : List α) :
    ((xs.zipIdx done.length).filterMap fun x => (f x.1).map fun y => (x.2, y)).foldr
      (fun y ys => ys.insertIdx (y.1 + 1) y.2) (done ++ xs) = done ++ xs.flatMap fun x => x :: (f x).toList := by
  induction xs generalizing done with
  | nil => rfl
  | cons x xs ih =>
    have hnext := ih (done ++ [x])
    rw [List.length_append, List.length_singleton, List.append_assoc, List.singleton_append] at hnext
    rw [List.zipIdx_cons, List.flatMap_cons]
    cases hf : f x with
    | none =>
      rw [List.filterMap_cons_none (by rw [hf]; rfl), hnext, List.append_assoc]
      rfl
    | some y =>
      rw [List.filterMap_cons_some (by rw [hf]; rfl), List.foldr_cons, hnext]
      have hlength : done.length + 1 = (done ++ [x]).length := by
        rw [List.length_append, List.length_singleton]
      rw [hlength, insertIdx_append, List.append_assoc]
      rfl

/-! ## What splices put in -/

/-- Splices from some place on, and those that change nothing, leave what is before it. -/
theorem take_foldr_apply {xs : List α} {m : Nat} (hm : m ≤ xs.length) {splices : List (Splice α)}
    (h : ∀ s ∈ splices, m ≤ s.start ∨ (s.len = 0 ∧ s.text = [])) :
    (splices.foldr Splice.apply xs).take m = xs.take m := by
  induction splices with
  | nil => rfl
  | cons s rest ih =>
    obtain ⟨hs, hrest⟩ := List.forall_mem_cons.1 h
    have hbefore := ih hrest
    rw [List.foldr_cons, Splice.apply]
    rcases hs with hs | ⟨hlen, htext⟩
    · have hlength : m ≤ (rest.foldr Splice.apply xs).length := by
        have := congrArg List.length hbefore
        rw [List.length_take, List.length_take] at this
        omega
      rw [List.append_assoc, List.take_append_of_le_length (by rw [List.length_take]; omega), List.take_take,
        Nat.min_eq_left hs, hbefore]
    · rw [hlen, htext, List.append_nil, Nat.add_zero, List.take_append_drop, hbefore]

/-- Two stretches do not overlap, if neither is empty. -/
def Apart (s t : Splice α) : Prop := s.len = 0 ∨ t.len = 0 ∨ s.start + s.len ≤ t.start

/-- A stretch ends before what another, put in earlier, has put there. -/
def Clear (s t : Splice α) : Prop := s.len = 0 ∨ t.text = [] ∨ s.start + s.len ≤ t.start

section
variable {mark : α → Bool} {xs : List α} {splices : List (Splice α)}

theorem filter_take_foldr (hxs : ∀ x ∈ xs, mark x = false) {m : Nat} (hm : m ≤ xs.length)
    (h : ∀ s ∈ splices, m ≤ s.start ∨ (s.len = 0 ∧ s.text = [])) :
    ((splices.foldr Splice.apply xs).take m).filter mark = [] := by
  rw [take_foldr_apply hm h, List.filter_eq_nil_iff]
  intro x hx
  rw [hxs x (List.mem_of_mem_take hx)]
  exact Bool.false_ne_true

/-- The marked elements after one more splice from the left: those it puts in, then those behind it. -/
theorem filter_apply {s : Splice α} {rest : List (Splice α)} (hxs : ∀ x ∈ xs, mark x = false)
    (htext : ∀ x ∈ s.text, mark x = true) (hsorted : ∀ t ∈ rest, s.start ≤ t.start) (hin : s.start ≤ xs.length) :
    (s.apply (rest.foldr Splice.apply xs)).filter mark =
      s.text ++ ((rest.foldr Splice.apply xs).drop (s.start + s.len)).filter mark := by
  rw [Splice.apply, List.filter_append, List.filter_append, filter_take_foldr hxs hin fun t ht => .inl (hsorted t ht),
    List.filter_eq_self.2 htext, List.nil_append]

/-- No more marked elements than are put in. -/
theorem filter_foldr_sublist (hxs : ∀ x ∈ xs, mark x = false) (htexts : ∀ s ∈ splices, ∀ x ∈ s.text, mark x = true)
    (hsorted : splices.Pairwise fun s t => s.start ≤ t.start) (hin : ∀ s ∈ splices, s.start + s.len ≤ xs.length) :
    ((splices.foldr Splice.apply xs).filter mark).Sublist (splices.flatMap Splice.text) := by
  induction splices with
  | nil =>
    rw [List.foldr_nil, List.filter_eq_nil_iff.2 fun x hx => by simp [hxs x hx]]
    exact List.nil_sublist _
  | cons s rest ih =>
    obtain ⟨hs, hrest⟩ := List.forall_mem_cons.1 htexts
    obtain ⟨hstart, hsorted⟩ := List.pairwise_cons.1 hsorted
    obtain ⟨hend, hin⟩ := List.forall_mem_cons.1 hin
    rw [List.foldr_cons, filter_apply hxs hs hstart (by omega), List.flatMap_cons]
    exact (((List.drop_sublist ..).filter mark).trans (ih hrest hsorted hin)).append_left s.text

/-- Where nothing marked stands before a place and no stretch begins there, nothing is put in before it. -/
theorem clear_of_unmarked {m : Nat} (htexts : ∀ s ∈ splices, ∀ x ∈ s.text, mark x = true)
    (hsorted : splices.Pairwise fun s t => s.start ≤ t.start) (hin : ∀ s ∈ splices, s.start + s.len ≤ xs.length)
    (hapart : ∀ s ∈ splices, s.len = 0 ∨ m ≤ s.start)
    (h : ((splices.foldr Splice.apply xs).take m).filter mark = []) :
    ∀ s ∈ splices, s.text = [] ∨ m ≤ s.start := by
  induction splices with
  | nil => exact List.forall_mem_nil _
  | cons s rest ih =>
    obtain ⟨htext, hrest⟩ := List.forall_mem_cons.1 htexts
    obtain ⟨hstart, hsorted⟩ := List.pairwise_cons.1 hsorted
    obtain ⟨hend, hin⟩ := List.forall_mem_cons.1 hin
    obtain ⟨hlen, hapart⟩ := List.forall_mem_cons.1 hapart
    rcases Nat.lt_or_ge s.start m with hlt | hge
    · have hempty : s.len = 0 := hlen.resolve_right (by omega)
      have hlength : ((rest.foldr Splice.apply xs).take s.start).length = s.start := by
        rw [take_foldr_apply (by omega) fun t ht => .inl (hstart t ht), List.length_take]
        omega
      have hnone : s.text = [] := by
        -- the first element put in would stand before the place
        cases hs : s.text with
        | nil => rfl
        | cons x text =>
          have hmark := htext x (by rw [hs]; exact List.mem_cons_self)
          refine absurd h (List.ne_nil_of_mem (List.mem_filter.2 ⟨?_, hmark⟩) (a := x))
          rw [List.foldr_cons, Splice.apply, hs, List.append_assoc, List.take_append, hlength]
          refine List.mem_append_right _ ?_
          rw [show m - s.start = (m - s.start - 1) + 1 by omega, List.cons_append, List.take_succ_cons]
          exact List.mem_cons_self
      rw [List.foldr_cons, Splice.apply, hempty, hnone, List.append_nil, Nat.add_zero, List.take_append_drop] at h
      exact List.forall_mem_cons.2 ⟨.inl hnone, ih hrest hsorted hin hapart h⟩
    · refine List.forall_mem_cons.2 ⟨.inr hge, ?_⟩
      intro t ht
      have := hstart t ht
      exact .inr (by omega)

/-- **All that is put in stays** iff every stretch is clear of what is put in behind its start. -/
theorem filter_foldr_eq_iff (hxs : ∀ x ∈ xs, mark x = false) (htexts : ∀ s ∈ splices, ∀ x ∈ s.text, mark x = true)
    (hsorted : splices.Pairwise fun s t => s.start ≤ t.start) (hin : ∀ s ∈ splices, s.start + s.len ≤ xs.length)
    (hapart : splices.Pairwise Apart) :
    (splices.foldr Splice.apply xs).filter mark = splices.flatMap Splice.text ↔ splices.Pairwise Clear := by
  induction splices with
  | nil =>
    rw [List.foldr_nil, List.filter_eq_nil_iff.2 fun x hx => by simp [hxs x hx]]
    exact iff_of_true rfl .nil
  | cons s rest ih =>
    obtain ⟨hs, hrest⟩ := List.forall_mem_cons.1 htexts
    obtain ⟨hstart, hsorted⟩ := List.pairwise_cons.1 hsorted
    obtain ⟨hend, hin⟩ := List.forall_mem_cons.1 hin
    obtain ⟨hsapart, hapart⟩ := List.pairwise_cons.1 hapart
    have hsub := filter_foldr_sublist hxs hrest hsorted hin
    rw [List.foldr_cons, filter_apply hxs hs hstart (by omega), List.flatMap_cons, List.append_cancel_left_eq,
      List.pairwise_cons, ← ih hrest hsorted hin hapart]
    have hsplit : (rest.foldr Splice.apply xs).filter mark =
        ((rest.foldr Splice.apply xs).take (s.start + s.len)).filter mark ++
          ((rest.foldr Splice.apply xs).drop (s.start + s.len)).filter mark := by
      rw [← List.filter_append, List.take_append_drop]
    constructor
    · intro h
      have hnone : ((rest.foldr Splice.apply xs).take (s.start + s.len)).filter mark = [] := by
        have := hsub.length_le
        rw [hsplit, h, List.length_append] at this
        exact List.length_eq_zero_iff.1 (by omega)
      rw [hnone, List.nil_append] at hsplit
      refine ⟨?_, hsplit.trans h⟩
      intro t ht
      by_cases hlen : s.len = 0
      · exact .inl hlen
      · refine .inr (clear_of_unmarked hrest hsorted hin ?_ hnone t ht)
        intro u hu
        exact (hsapart u hu).resolve_left hlen
    · rintro ⟨hclear, h⟩
      have hnone : ((rest.foldr Splice.apply xs).take (s.start + s.len)).filter mark = [] := by
        refine filter_take_foldr hxs hend ?_
        intro t ht
        have htstart := hstart t ht
        rcases hclear t ht with hlen | htext | hle
        · exact .inl (by omega)
        · rcases hsapart t ht with hlen | hlen | hle
          · exact .inl (by omega)
          · exact .inr ⟨hlen, htext⟩
          · exact .inl hle
        · exact .inl hle
      rw [hnone, List.nil_append] at hsplit
      rw [← hsplit, h]

end

/-! ## A stable sort and pairs -/

section
variable {β : Type*} {r : β → β → Prop} [DecidableRel r] {P : β → β → Prop}

theorem pairwise_orderedInsert_iff (htrans : ∀ a b c, r a b → r b c → r a c) (a : β) {l : List β} (hl : l.Pairwise r) :
    (l.orderedInsert r a).Pairwise P ↔ (∀ b ∈ l, if r a b then P a b else P b a) ∧ l.Pairwise P := by
  induction l with
  | nil => simp
  | cons b l ih =>
    obtain ⟨hb, hl⟩ := List.pairwise_cons.1 hl
    by_cases hab : r a b
    · rw [List.orderedInsert_cons_of_le _ _ hab, List.pairwise_cons]
      refine and_congr_left fun _ => forall₂_congr fun c hc => ?_
      have hac : r a c := by
        rcases List.mem_cons.1 hc with rfl | hc
        · exact hab
        · exact htrans a b c hab (hb c hc)
      rw [if_pos hac]
    · rw [List.orderedInsert_of_not_le _ _ hab, List.pairwise_cons, ih hl, List.forall_mem_cons, if_neg hab,
        List.pairwise_cons]
      have hmem : (∀ c ∈ l.orderedInsert r a, P b c) ↔ P b a ∧ ∀ c ∈ l, P b c := by
        simp only [List.mem_orderedInsert, forall_eq_or_imp]
      tauto

/-- **Sorting is stable**: what holds of the pairs of the sorted list is what holds of those of the list,
turned around where the sort turns them. -/
theorem pairwise_insertionSort_iff (htrans : ∀ a b c, r a b → r b c → r a c) (htotal : ∀ a b, r a b ∨ r b a) (l : List β) :
    (l.insertionSort r).Pairwise P ↔ l.Pairwise fun a b => if r a b then P a b else P b a := by
  have : Std.Total r := ⟨htotal⟩
  have : IsTrans β r := ⟨htrans⟩
  induction l with
  | nil => simp
  | cons a l ih =>
    rw [List.insertionSort_cons, List.pairwise_cons]
    refine (pairwise_orderedInsert_iff htrans a (List.pairwise_insertionSort r l)).trans (and_congr ?_ ih)
    simp only [List.mem_insertionSort]

end

end Splices
