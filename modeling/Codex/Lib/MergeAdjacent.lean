/-
Lists whose neighbours may join into one. Joining all neighbours of a list
gives the same whatever was joined before (`merge_append_merge`), so lists are
compared by what they are once joined (`Same`).
-/
import Mathlib.Data.List.Basic
import Mathlib.Tactic.Common

namespace MergeAdjacent

variable {α β : Type*}

/-- Put in front, joined with the first if the two join. -/
def cons (join : α → α → Option α) (a : α) : List α → List α
  | [] => [a]
  | b :: l => ((join a b).map (· :: l)).getD (a :: b :: l)

/-- All neighbours joined. -/
def merge (join : α → α → Option α) (l : List α) : List α := l.foldr (cons join) []

/-- Three in a row join the same from either side. -/
structure Associative (join : α → α → Option α) : Prop where
  both : ∀ {a b c ab bc}, join a b = some ab → join b c = some bc → ∃ abc, join a bc = some abc ∧ join ab c = some abc
  stop : ∀ {a b c ab}, join a b = some ab → join b c = none → join ab c = none

/-- Equal once joined. -/
def Same (join : α → α → Option α) (l l' : List α) : Prop := merge join l = merge join l'

variable {join : α → α → Option α} {l l' k k' : List α} {a b ab : α}

theorem cons_some (h : join a b = some ab) (l : List α) : cons join a (b :: l) = ab :: l := by
  unfold cons
  simp only [h, Option.map_some, Option.getD_some]

theorem cons_none (h : join a b = none) (l : List α) : cons join a (b :: l) = a :: b :: l := by
  unfold cons
  simp only [h, Option.map_none, Option.getD_none]

/-- Two that join may be joined before what follows them is known. -/
theorem cons_cons (hassoc : Associative join) (h : join a b = some ab) (l : List α) :
    cons join a (cons join b l) = cons join ab l := by
  cases l with
  | nil => exact cons_some h []
  | cons c l =>
    cases hbc : join b c with
    | none => rw [cons_none hbc, cons_some h, cons_none (hassoc.stop h hbc)]
    | some bc =>
      obtain ⟨abc, hleft, hright⟩ := hassoc.both h hbc
      rw [cons_some hbc, cons_some hleft, cons_some hright]

theorem foldr_cons (hassoc : Associative join) (a : α) (l z : List α) :
    (cons join a l).foldr (cons join) z = cons join a (l.foldr (cons join) z) := by
  cases l with
  | nil => rfl
  | cons b l =>
    cases h : join a b with
    | none =>
      rw [cons_none h]
      rfl
    | some ab =>
      rw [cons_some h, List.foldr_cons, List.foldr_cons]
      exact (cons_cons hassoc h _).symm

theorem foldr_merge (hassoc : Associative join) (l z : List α) :
    (merge join l).foldr (cons join) z = l.foldr (cons join) z := by
  induction l with
  | nil => rfl
  | cons a l ih =>
    change (cons join a (merge join l)).foldr (cons join) z = _
    rw [foldr_cons hassoc, ih]
    rfl

/-- Joining the first part beforehand changes nothing. -/
theorem merge_append_merge (hassoc : Associative join) (l k : List α) :
    merge join (merge join l ++ k) = merge join (l ++ k) := by
  unfold merge
  rw [List.foldr_append, List.foldr_append]
  exact foldr_merge hassoc l _

namespace Same

theorem refl : Same join l l := rfl

theorem symm (h : Same join l l') : Same join l' l := Eq.symm h

theorem trans (h : Same join l l') (h' : Same join l' k) : Same join l k := Eq.trans h h'

theorem append (hassoc : Associative join) (h : Same join l l') (h' : Same join k k') :
    Same join (l ++ k) (l' ++ k') := by
  have hk : ∀ m, merge join (m ++ k) = merge join (m ++ k') := by
    intro m
    unfold Same merge at h'
    unfold merge
    rw [List.foldr_append, List.foldr_append, h']
  unfold Same at *
  rw [← merge_append_merge hassoc l, h, merge_append_merge hassoc l', hk]

theorem pair (h : join a b = some ab) : Same join [a, b] [ab] := cons_some h []

/-- What is read off element by element, and off a joint one as off its parts,
does not depend on what is joined. -/
theorem flatMap_eq {f : α → List β} (hf : ∀ a b ab, join a b = some ab → f ab = f a ++ f b) (h : Same join l l') :
    l.flatMap f = l'.flatMap f := by
  have hmerge : ∀ l, (merge join l).flatMap f = l.flatMap f := by
    intro l
    induction l with
    | nil => rfl
    | cons a l ih =>
      rw [List.flatMap_cons, ← ih]
      change (cons join a (merge join l)).flatMap f = _
      cases merge join l with
      | nil => exact List.flatMap_cons
      | cons b m =>
        cases hab : join a b with
        | none => rw [cons_none hab, List.flatMap_cons]
        | some ab => rw [cons_some hab, List.flatMap_cons, List.flatMap_cons, hf a b ab hab, List.append_assoc]
  rw [← hmerge l, ← hmerge l']
  exact congrArg (List.flatMap f) h

/-- A map that keeps what joins keeps lists the same. -/
theorem map {join' : β → β → Option β} {f : α → β} (hf : ∀ a b, (join a b).map f = join' (f a) (f b))
    (h : Same join l l') : Same join' (l.map f) (l'.map f) := by
  have hmerge : ∀ l, merge join' (l.map f) = (merge join l).map f := by
    intro l
    induction l with
    | nil => rfl
    | cons a l ih =>
      change cons join' (f a) (merge join' (l.map f)) = (cons join a (merge join l)).map f
      rw [ih]
      cases merge join l with
      | nil => rfl
      | cons b m =>
        cases hab : join a b with
        | none =>
          have hab' := hf a b
          rw [hab] at hab'
          rw [cons_none hab]
          exact cons_none hab'.symm _
        | some ab =>
          have hab' := hf a b
          rw [hab] at hab'
          rw [cons_some hab]
          exact cons_some hab'.symm _
  unfold Same
  rw [hmerge, hmerge]
  exact congrArg (List.map f) h

end Same

end MergeAdjacent
