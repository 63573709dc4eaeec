/-
Paging by seek. A page is the first rows of what a cursor has left, and its next cursor
stands for the rest; following next cursors to the end then returns every row once
(`follow_eq`), whatever the cursors are made of. In a strictly ordered list a cursor can
be the position of a row.
-/
import Mathlib.Data.List.Forall2
import Mathlib.Data.List.Sort
import Mathlib.Order.OrderDual
import Mathlib.Tactic.Common

namespace SeekPaging

/-! ## Following cursors -/

section
variable {γ α ε : Type*}

/-- The rows of the pages from a cursor on, until a page names no further cursor. -/
def follow (fetch : Option γ → Except ε (List α × Option γ)) : Nat → Option γ → Except ε (Option (List α))
  | 0, _ => .ok none
  | fuel + 1, cursor =>
    match fetch cursor with
    | .error e => .error e
    | .ok (rows, none) => .ok (some rows)
    | .ok (rows, some next) => (follow fetch fuel (some next)).map fun more => more.map (rows ++ ·)

/-- Cursors stand for lists of rows: a page takes the first ones, and leaves the others to its next cursor. -/
structure Stands (fetch : Option γ → Except ε (List α × Option γ)) (size : Nat) (left : Option γ → List α → Prop) : Prop where
  last : ∀ cursor rows, left cursor rows → rows.length ≤ size → fetch cursor = .ok (rows, none)
  more : ∀ cursor rows, left cursor rows → size < rows.length →
    ∃ next, fetch cursor = .ok (rows.take size, some next) ∧ left (some next) (rows.drop size)

variable {fetch : Option γ → Except ε (List α × Option γ)} {fuel : Nat} {cursor : Option γ} {rows : List α}

/-- **Following next cursors returns every row once**, in order, and comes to an end. -/
theorem follow_eq {size : Nat} {left : Option γ → List α → Prop}
    (h : Stands fetch size left) (hsize : 0 < size)
    (hleft : left cursor rows) (hfuel : rows.length < fuel) : follow fetch fuel cursor = .ok (some rows) := by
  induction fuel generalizing cursor rows with
  | zero => omega
  | succ fuel ih =>
    rw [follow]
    by_cases hlast : rows.length ≤ size
    · rw [h.last cursor rows hleft hlast]
    · obtain ⟨next, hfetch, hnext⟩ := h.more cursor rows hleft (Nat.lt_of_not_le hlast)
      have hshorter : (rows.drop size).length < fuel := by
        rw [List.length_drop]
        omega
      simp only [hfetch, ih hnext hshorter]
      exact congrArg (fun l => Except.ok (some l)) (List.take_append_drop size rows)

/-- Listings whose pages correspond. -/
theorem exists_follow {β : Type*} {R : α → β → Prop} {fetch' : Option γ → Except ε (List β × Option γ)}
    (h : ∀ cursor rows next, fetch cursor = .ok (rows, next) →
      ∃ rows', fetch' cursor = .ok (rows', next) ∧ List.Forall₂ R rows rows')
    (hfollow : follow fetch fuel cursor = .ok (some rows)) :
    ∃ rows', follow fetch' fuel cursor = .ok (some rows') ∧ List.Forall₂ R rows rows' := by
  induction fuel generalizing cursor rows with
  | zero => cases hfollow
  | succ fuel ih =>
    rw [follow] at hfollow ⊢
    cases hfetch : fetch cursor with
    | error e => rw [hfetch] at hfollow; cases hfollow
    | ok page =>
      obtain ⟨first, next⟩ := page
      obtain ⟨first', hfetch', hfirst⟩ := h cursor first next hfetch
      rw [hfetch] at hfollow
      rw [hfetch']
      cases next with
      | none =>
        cases hfollow
        exact ⟨first', rfl, hfirst⟩
      | some next =>
        dsimp only at hfollow ⊢
        cases hmore : follow fetch fuel (some next) with
        | error e => rw [hmore] at hfollow; cases hfollow
        | ok more =>
          cases more with
          | none => rw [hmore] at hfollow; cases hfollow
          | some more =>
            rw [hmore] at hfollow
            cases hfollow
            obtain ⟨more', hmore', hrest⟩ := ih hmore
            rw [hmore']
            exact ⟨first' ++ more', rfl, List.rel_append hfirst hrest⟩

/-- What comes of the pages of a listing holds of it all. -/
theorem forall_of_follow {P : α → Prop} (h : ∀ cursor page, fetch cursor = .ok page → ∀ row ∈ page.1, P row)
    (hfollow : follow fetch fuel cursor = .ok (some rows)) : ∀ row ∈ rows, P row := by
  induction fuel generalizing cursor rows with
  | zero => cases hfollow
  | succ fuel ih =>
    rw [follow] at hfollow
    cases hfetch : fetch cursor with
    | error e => rw [hfetch] at hfollow; cases hfollow
    | ok page =>
      have hpage := h cursor page hfetch
      obtain ⟨first, next⟩ := page
      rw [hfetch] at hfollow
      cases next with
      | none =>
        cases hfollow
        exact hpage
      | some next =>
        dsimp only at hfollow
        cases hmore : follow fetch fuel (some next) with
        | error e => rw [hmore] at hfollow; cases hfollow
        | ok more =>
          cases more with
          | none => rw [hmore] at hfollow; cases hfollow
          | some more =>
            rw [hmore] at hfollow
            cases hfollow
            intro row hrow
            exact (List.mem_append.1 hrow).elim (hpage row) (ih hmore row)

end

/-! ## Strictly ordered lists -/

section
variable {α : Type*} {R : α → α → Prop} [DecidableRel R] [Std.Asymm R]

theorem filter_after {before after} {a : α} (h : (before ++ a :: after).Pairwise R) :
    (before ++ a :: after).filter (fun b => R a b) = after := by
  obtain ⟨-, hafter, hbefore⟩ := List.pairwise_append.1 h
  have hdrop : before.filter (fun b => R a b) = [] := by
    rw [List.filter_eq_nil_iff]
    intro b hb
    simpa using asymm (hbefore b hb a (List.mem_cons_self ..))
  have hself : ¬ R a a := fun haa => asymm haa haa
  rw [List.filter_append, hdrop, List.nil_append, List.filter_cons_of_neg (by simpa using hself), List.filter_eq_self]
  intro b hb
  simpa using List.rel_of_pairwise_cons hafter hb

theorem filter_from {before after} {a : α} (h : (before ++ a :: after).Pairwise R) :
    (before ++ a :: after).filter (fun b => ¬ R b a) = a :: after := by
  obtain ⟨-, hafter, hbefore⟩ := List.pairwise_append.1 h
  have hdrop : before.filter (fun b => ¬ R b a) = [] := by
    rw [List.filter_eq_nil_iff]
    intro b hb
    simpa using hbefore b hb a (List.mem_cons_self ..)
  have hself : ¬ R a a := fun haa => asymm haa haa
  rw [List.filter_append, hdrop, List.nil_append, List.filter_eq_self]
  intro b hb
  rcases List.mem_cons.1 hb with rfl | hb
  · simpa using hself
  · simpa using asymm (List.rel_of_pairwise_cons hafter hb)

end

/-! ## Ordering by a key -/

section
variable {α κ : Type*} [LinearOrder κ] (key : α → κ)

/-- `ORDER BY key` -/
def orderBy (l : List α) : List α := l.insertionSort fun a b => key a ≤ key b

variable {key}

theorem orderBy_perm (l : List α) : (orderBy key l).Perm l := List.perm_insertionSort _ l

variable {l : List α}

theorem pairwise_orderBy (h : (l.map key).Nodup) : (orderBy key l).Pairwise fun a b => key a < key b := by
  have hle : (orderBy key l).Pairwise fun a b => key a ≤ key b := by
    exact List.pairwise_insertionSort _ l
  have hne : (orderBy key l).Pairwise fun a b => key a ≠ key b :=
    List.pairwise_map.1 (((orderBy_perm l).map key).nodup_iff.2 h)
  exact (hle.and hne).imp fun h => lt_of_le_of_ne h.1 h.2

theorem orderBy_eq {l'} (hperm : l'.Perm l) (h : l'.Pairwise fun a b => key a < key b) : orderBy key l = l' := by
  have hnodup : (l.map key).Nodup := (hperm.map key).nodup_iff.1 (List.pairwise_map.2 (h.imp fun hlt => hlt.ne))
  exact ((orderBy_perm l).trans hperm.symm).eq_of_pairwise (fun a b _ _ hab hba => absurd (hab.trans hba) (lt_irrefl _))
    (pairwise_orderBy hnodup) h

theorem orderBy_filter (h : (l.map key).Nodup) (p : α → Bool) :
    orderBy key (l.filter p) = (orderBy key l).filter p :=
  orderBy_eq ((orderBy_perm l).filter p) ((pairwise_orderBy h).filter p)

/-- `ORDER BY key DESC` is the reverse of `ORDER BY key`. -/
theorem orderBy_toDual (h : (l.map key).Nodup) :
    orderBy (fun a => OrderDual.toDual (key a)) l = (orderBy key l).reverse :=
  orderBy_eq ((List.reverse_perm _).trans (orderBy_perm l))
    (List.pairwise_reverse.2 ((pairwise_orderBy h).imp OrderDual.toDual_lt_toDual.2))

end

/-! ## Lists of segments -/

theorem flatMap_split {σ α : Type*} {f : σ → List α} {segments before after} {a : α}
    (h : segments.flatMap f = before ++ a :: after) :
    ∃ earlier s later before' after', segments = earlier ++ s :: later ∧ f s = before' ++ a :: after' ∧
      before = earlier.flatMap f ++ before' ∧ after = after' ++ later.flatMap f := by
  induction segments generalizing before with
  | nil => simp at h
  | cons s segments ih =>
    rw [List.flatMap_cons, List.append_eq_append_iff] at h
    rcases h with ⟨before₁, rfl, h⟩ | ⟨rest, hs, h⟩
    · obtain ⟨earlier, s', later, before', after', rfl, hs', rfl, rfl⟩ := ih h
      exact ⟨s :: earlier, s', later, before', after', rfl, hs', by simp, rfl⟩
    · cases rest with
      | nil =>
        rw [List.append_nil] at hs
        obtain ⟨earlier, s', later, before', after', rfl, hs', hnil, rfl⟩ := ih (show segments.flatMap f = [] ++ a :: after from h.symm)
        refine ⟨s :: earlier, s', later, before', after', rfl, hs', ?_, rfl⟩
        rw [List.flatMap_cons, List.append_assoc, ← hnil, List.append_nil, hs]
      | cons b rest =>
        obtain ⟨rfl, rfl⟩ := h
        exact ⟨[], s, segments, before, rest, rfl, hs, rfl, rfl⟩

end SeekPaging
