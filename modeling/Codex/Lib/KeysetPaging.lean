/-
Paging by key, where keys may be equal. Each query has the rows behind an anchor in an
order by key, of which nothing else is known, and a page's anchor is made of its last row.
Following the anchors lists every row once and in order exactly when at the end of each
page the anchor is not in front of the last row and in front of the next one
(`lists_iff`).
-/
import Codex.Lib.SeekPaging
import Mathlib.Data.List.Perm.Basic

namespace KeysetPaging

open SeekPaging

variable {α κ γ ε : Type*}

/-- A linear order of keys, and the anchors made of them. -/
structure Keyset (κ γ : Type*) where
  le : κ → κ → Prop
  total : ∀ a b, le a b ∨ le b a
  trans : ∀ {a b c}, le a b → le b c → le a c
  antisymm : ∀ {a b}, le a b → le b a → a = b
  /-- The anchor of a page whose last row has the key. -/
  anchor : κ → γ
  after : γ → κ → Bool
  after_of_le : ∀ {position a b}, le a b → after position a → after position b

variable (ks : Keyset κ γ)

/-- The end of a page, between two keys, where its anchor is. -/
def Keyset.Separates (last next : κ) : Prop :=
  ks.after (ks.anchor last) last = false ∧ ks.after (ks.anchor last) next = true

/-- The ends of all pages but the last. -/
def Keyset.Separated (size : Nat) (keys : List κ) : Prop :=
  ∀ page last next, keys[page * size + (size - 1)]? = some last → keys[page * size + size]? = some next →
    ks.Separates last next

theorem getElem?_next_page (keys : List κ) (page size offset : Nat) :
    (keys.drop size)[page * size + offset]? = keys[(page + 1) * size + offset]? := by
  rw [List.getElem?_drop, Nat.succ_mul, Nat.add_right_comm, Nat.add_comm size, Nat.add_right_comm]

theorem Keyset.separated_iff (size : Nat) (keys : List κ) :
    ks.Separated size keys ↔
      (∀ last next, keys[size - 1]? = some last → keys[size]? = some next → ks.Separates last next) ∧
        ks.Separated size (keys.drop size) := by
  constructor
  · intro h
    refine ⟨?_, ?_⟩
    · intro last next hlast hnext
      exact h 0 last next (by rw [Nat.zero_mul, Nat.zero_add, hlast]) (by rw [Nat.zero_mul, Nat.zero_add, hnext])
    · intro page last next hlast hnext
      rw [getElem?_next_page] at hlast hnext
      exact h (page + 1) last next hlast hnext
  · rintro ⟨hfirst, hrest⟩ page last next hlast hnext
    cases page with
    | zero =>
      rw [Nat.zero_mul, Nat.zero_add] at hlast hnext
      exact hfirst last next hlast hnext
    | succ page =>
      rw [← getElem?_next_page] at hlast hnext
      exact hrest page last next hlast hnext

/-- The rows that a query is for. -/
def Keyset.selected (key : α → κ) (rows : List α) : Option γ → List α
  | none => rows
  | some position => rows.filter fun row => ks.after position (key row)

/-- What the queries answer: rows with equal keys may stand in any order. -/
structure Answers (key : α → κ) (rows : List α) where
  answer : Option γ → List α
  perm : ∀ position, (answer position).Perm (ks.selected key rows position)
  sorted : ∀ position, (answer position).Pairwise fun a b => ks.le (key a) (key b)

variable {ks} {key : α → κ} {rows : List α} (answers : Answers ks key rows) (size : Nat)

/-- A page and its anchor, which there is if there are more rows. -/
def fetch (position : Option γ) : Except ε (List α × Option γ) :=
  if (answers.answer position).length ≤ size then .ok (answers.answer position, none)
  else .ok ((answers.answer position).take size,
    (answers.answer position)[size - 1]?.map fun row => ks.anchor (key row))

/-! ## Pages that end between two keys -/

variable {answers size}

variable {position : Option γ} {row : α} {l : List α} {last : α} {out : List α} {fuel : Nat}

theorem Answers.mem :
    row ∈ answers.answer position ↔ row ∈ ks.selected key rows position := (answers.perm position).mem_iff

theorem Answers.mem_rows (h : row ∈ answers.answer position) : row ∈ rows := by
  rw [answers.mem] at h
  cases position with
  | none => exact h
  | some position => exact List.mem_of_mem_filter h

theorem Answers.nodup (answers : Answers ks key rows) (h : rows.Nodup) (position : Option γ) :
    (answers.answer position).Nodup := by
  rw [(answers.perm position).nodup_iff]
  cases position with
  | none => exact h
  | some position => exact h.filter _

theorem pairwise_around {R : α → α → Prop} (h : l.Pairwise R) {place : Nat} (hrow : l[place]? = some row) :
    (∀ a ∈ l.take place, R a row) ∧ ∀ b ∈ l.drop (place + 1), R row b := by
  have hsplit : l = l.take place ++ row :: l.drop (place + 1) := by
    obtain ⟨hlt, hget⟩ := List.getElem?_eq_some_iff.1 hrow
    rw [← hget, List.getElem_cons_drop, List.take_append_drop]
  rw [hsplit] at h
  obtain ⟨-, hafter, hbefore⟩ := List.pairwise_append.1 h
  exact ⟨fun a ha => hbefore a ha row (List.mem_cons_self ..), fun b hb => List.rel_of_pairwise_cons hafter hb⟩

theorem Keyset.le_refl (ks : Keyset κ γ) (a : κ) : ks.le a a := (ks.total a a).elim id id

theorem Answers.le_last (hsize : 0 < size)
    (hlast : (answers.answer position)[size - 1]? = some last) (hrow : row ∈ (answers.answer position).take size) :
    ks.le (key row) (key last) := by
  rw [show size = size - 1 + 1 by omega, List.take_add_one, hlast, List.mem_append] at hrow
  rcases hrow with hrow | hrow
  · exact (pairwise_around (answers.sorted position) hlast).1 row hrow
  · rw [Option.toList_some, List.mem_singleton] at hrow
    rw [hrow]
    exact ks.le_refl _

theorem Answers.next_le {next : α} (hnext : (answers.answer position)[size]? = some next)
    (hrow : row ∈ (answers.answer position).drop size) : ks.le (key next) (key row) := by
  obtain ⟨hlt, hget⟩ := List.getElem?_eq_some_iff.1 hnext
  rw [List.drop_eq_getElem_cons hlt, hget, List.mem_cons] at hrow
  rcases hrow with rfl | hrow
  · exact ks.le_refl _
  · exact (pairwise_around (answers.sorted position) hnext).2 row hrow

/-- What a page leaves, if its anchor is between its last row and the next. -/
theorem Answers.perm_drop {next : α} (hsize : 0 < size)
    (hlast : (answers.answer position)[size - 1]? = some last) (hnext : (answers.answer position)[size]? = some next)
    (h : ks.Separates (key last) (key next)) :
    (answers.answer (some (ks.anchor (key last)))).Perm ((answers.answer position).drop size) := by
  obtain ⟨hnot, hafter⟩ := h
  have hbefore : ((answers.answer position).take size).filter (fun row => ks.after (ks.anchor (key last)) (key row)) = [] := by
    rw [List.filter_eq_nil_iff]
    intro row hrow haft
    rw [ks.after_of_le (answers.le_last hsize hlast hrow) haft] at hnot
    cases hnot
  have hbehind : ((answers.answer position).drop size).filter (fun row => ks.after (ks.anchor (key last)) (key row)) =
      (answers.answer position).drop size := by
    rw [List.filter_eq_self]
    intro row hrow
    exact ks.after_of_le (answers.next_le hnext hrow) hafter
  have hselected : ks.selected key rows (some (ks.anchor (key last))) =
      (ks.selected key rows position).filter fun row => ks.after (ks.anchor (key last)) (key row) := by
    cases position with
    | none => rfl
    | some earlier =>
      have hmem : last ∈ ks.selected key rows (some earlier) := answers.mem.1 (List.mem_of_getElem? hlast)
      have hearlier : ks.after earlier (key last) = true := (List.mem_filter.1 hmem).2
      rw [Keyset.selected, Keyset.selected, List.filter_filter]
      refine List.filter_congr ?_
      intro row _
      cases haft : ks.after (ks.anchor (key last)) (key row) with
      | false => rfl
      | true =>
        rcases ks.total (key last) (key row) with hle | hle
        · exact (ks.after_of_le hle hearlier).symm
        · rw [ks.after_of_le hle haft] at hnot
          cases hnot
  have hfilter : (answers.answer position).filter (fun row => ks.after (ks.anchor (key last)) (key row)) =
      (answers.answer position).drop size := by
    conv_lhs => rw [← List.take_append_drop size (answers.answer position)]
    rw [List.filter_append, hbefore, List.nil_append, hbehind]
  rw [← hfilter]
  refine (answers.perm _).trans ?_
  rw [hselected]
  exact ((answers.perm position).filter _).symm

/-! ## Following the anchors -/

/-- Every row once, in order. -/
def Answers.Lists (answers : Answers ks key rows) (position : Option γ) (out : List α) : Prop :=
  out.Perm (answers.answer position) ∧ out.Pairwise fun a b => ks.le (key a) (key b)

theorem fetch_last (h : (answers.answer position).length ≤ size) :
    (fetch answers size position : Except ε _) = .ok (answers.answer position, none) := if_pos h

theorem fetch_more (h : size < (answers.answer position).length)
    (hlast : (answers.answer position)[size - 1]? = some last) :
    (fetch answers size position : Except ε _) =
      .ok ((answers.answer position).take size, some (ks.anchor (key last))) := by
  rw [fetch, if_neg (Nat.not_le.2 h), hlast]
  rfl

/-- Where rows have been passed in the right way, the keys left are the same. -/
theorem Answers.keys_drop {next} (h : (answers.answer next).Perm ((answers.answer position).drop size)) :
    (answers.answer next).map key = ((answers.answer position).map key).drop size := by
  rw [← List.map_drop]
  refine (h.map key).eq_of_pairwise (fun _ _ _ _ hab hba => ks.antisymm hab hba) ?_ ?_
  · exact List.pairwise_map.2 (answers.sorted next)
  · exact List.pairwise_map.2 ((answers.sorted position).sublist (List.drop_sublist ..))

/-- The last row of a page and the one behind it. -/
theorem exists_ends (hsize : 0 < size) (h : size < l.length) :
    ∃ last next, l[size - 1]? = some last ∧ l[size]? = some next :=
  ⟨l[size - 1], l[size], List.getElem?_eq_getElem (by omega), List.getElem?_eq_getElem h⟩

theorem Answers.lists_page {next}
    (hperm : (answers.answer next).Perm ((answers.answer position).drop size)) (h : answers.Lists next out) :
    answers.Lists position ((answers.answer position).take size ++ out) := by
  obtain ⟨hout, hsorted⟩ := h
  have hall := answers.sorted position
  rw [← List.take_append_drop size (answers.answer position)] at hall
  obtain ⟨htake, -, hcross⟩ := List.pairwise_append.1 hall
  refine ⟨?_, ?_⟩
  · conv_rhs => rw [← List.take_append_drop size (answers.answer position)]
    exact (hout.trans hperm).append_left _
  · refine List.pairwise_append.2 ⟨htake, hsorted, ?_⟩
    intro a ha b hb
    exact hcross a ha b ((hout.trans hperm).mem_iff.1 hb)

theorem follow_of_separated (hsize : 0 < size)
    (h : ks.Separated size ((answers.answer position).map key)) (hfuel : (answers.answer position).length < fuel) :
    ∃ out, (follow (fetch answers size) fuel position : Except ε _) = .ok (some out) ∧ answers.Lists position out := by
  induction fuel generalizing position with
  | zero => omega
  | succ fuel ih =>
    rw [follow]
    rcases Nat.lt_or_ge size (answers.answer position).length with hmore | hlast
    · obtain ⟨last, next, hlast, hnext⟩ := exists_ends hsize hmore
      obtain ⟨hfirst, hrest⟩ := (ks.separated_iff size _).1 h
      have hseparates := hfirst (key last) (key next) (by rw [List.getElem?_map, hlast, Option.map_some])
        (by rw [List.getElem?_map, hnext, Option.map_some])
      have hperm := answers.perm_drop hsize hlast hnext hseparates
      rw [← answers.keys_drop hperm] at hrest
      have hlength := hperm.length_eq
      rw [List.length_drop] at hlength
      obtain ⟨out, hfollow, hlists⟩ := ih hrest (by omega)
      refine ⟨(answers.answer position).take size ++ out, ?_, answers.lists_page hperm hlists⟩
      rw [fetch_more hmore hlast]
      dsimp only
      rw [hfollow]
      rfl
    · rw [fetch_last hlast]
      exact ⟨_, rfl, .refl _, answers.sorted position⟩

/-! ## Anchors that are not where they should be -/

/-- What is listed is the last page, or a page and what its anchor lists. -/
theorem follow_cases (hsize : 0 < size)
    (h : (follow (fetch answers size) (fuel + 1) position : Except ε _) = .ok (some out)) :
    (answers.answer position).length ≤ size ∧ out = answers.answer position ∨
      ∃ last next more, (answers.answer position)[size - 1]? = some last ∧ (answers.answer position)[size]? = some next ∧
        (follow (fetch answers size) fuel (some (ks.anchor (key last))) : Except ε _) = .ok (some more) ∧
        out = (answers.answer position).take size ++ more := by
  rw [follow] at h
  rcases Nat.lt_or_ge size (answers.answer position).length with hmore | hlast
  · obtain ⟨last, next, hlast, hnext⟩ := exists_ends hsize hmore
    rw [fetch_more hmore hlast] at h
    dsimp only at h
    cases hrest : (follow (fetch answers size) fuel (some (ks.anchor (key last))) : Except ε _) with
    | error e => rw [hrest] at h; cases h
    | ok more =>
      cases more with
      | none => rw [hrest] at h; cases h
      | some more =>
        rw [hrest] at h
        cases h
        exact .inr ⟨last, next, more, hlast, hnext, hrest, rfl⟩
  · rw [fetch_last hlast] at h
    cases h
    exact .inl ⟨hlast, rfl⟩

theorem mem_page (hsize : 0 < size) (hlast : l[size - 1]? = some last) : last ∈ l.take size := by
  refine List.mem_of_getElem? (i := size - 1) ?_
  rw [List.getElem?_take_of_lt (by omega), hlast]

/-- The rows of a page are in front of those it leaves. -/
theorem Answers.page_le {a b : α} (ha : a ∈ (answers.answer position).take size)
    (hb : b ∈ (answers.answer position).drop size) : ks.le (key a) (key b) := by
  have hall := answers.sorted position
  rw [← List.take_append_drop size (answers.answer position)] at hall
  exact (List.pairwise_append.1 hall).2.2 a ha b hb

/-- An anchor in front of the row it is made of brings that row again, or one in front of it. -/
theorem follow_again (hsize : 0 < size) (hrow : row ∈ rows)
    (h : ks.after (ks.anchor (key row)) (key row) = true)
    (hfollow : (follow (fetch answers size) fuel (some (ks.anchor (key row))) : Except ε _) = .ok (some out)) :
    ∃ other ∈ out, other = row ∨ ks.le (key other) (key row) ∧ key other ≠ key row := by
  have hanswer : row ∈ answers.answer (some (ks.anchor (key row))) := answers.mem.2 (List.mem_filter.2 ⟨hrow, h⟩)
  induction fuel generalizing out with
  | zero => cases hfollow
  | succ fuel ih =>
    rcases follow_cases hsize hfollow with ⟨-, rfl⟩ | ⟨last, next, more, hlast, -, hmore, rfl⟩
    · exact ⟨row, hanswer, .inl rfl⟩
    · have hlastmem := mem_page hsize hlast
      rw [← List.take_append_drop size (answers.answer _), List.mem_append] at hanswer
      rcases hanswer with hpage | hleft
      · exact ⟨row, List.mem_append_left _ hpage, .inl rfl⟩
      · by_cases hkey : key last = key row
        · rw [hkey] at hmore
          obtain ⟨other, hother, hle⟩ := ih hmore
          exact ⟨other, List.mem_append_right _ hother, hle⟩
        · exact ⟨last, List.mem_append_left _ hlastmem, .inr ⟨answers.page_le hlastmem hleft, hkey⟩⟩

/-- What is listed from an anchor on begins behind it. -/
theorem follow_head (hsize : 0 < size) {position : γ} {first : α}
    (hfollow : (follow (fetch answers size) fuel (some position) : Except ε _) = .ok (some (first :: out))) :
    ks.after position (key first) = true := by
  have hmem : first ∈ answers.answer (some position) := by
    cases fuel with
    | zero => cases hfollow
    | succ fuel =>
      rcases follow_cases hsize hfollow with ⟨-, hout⟩ | ⟨last, next, more, hlast, -, -, hout⟩
      · rw [← hout]
        exact List.mem_cons_self ..
      · have hpage := List.ne_nil_of_mem (mem_page hsize hlast)
        obtain ⟨head, tail, htake⟩ := List.exists_cons_of_ne_nil hpage
        rw [htake, List.cons_append, List.cons.injEq] at hout
        rw [hout.1]
        exact List.mem_of_mem_take (htake ▸ List.mem_cons_self ..)
  exact (List.mem_filter.1 (answers.mem.1 hmem)).2

/-- If every row is listed once, the pages end where they should. -/
theorem separated_of_lists (hsize : 0 < size) (hnodup : rows.Nodup)
    (hfollow : (follow (fetch answers size) fuel position : Except ε _) = .ok (some out))
    (h : answers.Lists position out) : ks.Separated size ((answers.answer position).map key) := by
  induction fuel generalizing position out with
  | zero => cases hfollow
  | succ fuel ih =>
    rcases follow_cases hsize hfollow with ⟨hshort, -⟩ | ⟨last, next, more, hlast, hnext, hmore, rfl⟩
    · intro page l n _ hn
      rw [List.getElem?_eq_none] at hn
      · cases hn
      · rw [List.length_map]
        exact hshort.trans (Nat.le_add_left ..)
    · have hlastmem := mem_page hsize hlast
      obtain ⟨hperm, hsorted⟩ := h
      have hout := hperm.nodup_iff.2 (answers.nodup hnodup position)
      have hdisjoint := (List.nodup_append.1 hout).2.2
      obtain ⟨-, hmoresorted, hcross⟩ := List.pairwise_append.1 hsorted
      conv_rhs at hperm => rw [← List.take_append_drop size (answers.answer position)]
      have hleft := (List.perm_append_left_iff _).1 hperm
      have hbehind : ks.after (ks.anchor (key last)) (key last) = false := by
        rw [← Bool.not_eq_true]
        intro hafter
        have hrow := answers.mem_rows (List.mem_of_getElem? hlast)
        obtain ⟨other, hother, rfl | ⟨hle, hne⟩⟩ := follow_again hsize hrow hafter hmore
        · exact hdisjoint _ hlastmem _ hother rfl
        · exact hne (ks.antisymm hle (hcross last hlastmem other hother))
      have hinfront : ks.after (ks.anchor (key last)) (key next) = true := by
        obtain ⟨hlt, hget⟩ := List.getElem?_eq_some_iff.1 hnext
        have hnextmore : next ∈ more := by
          rw [hleft.mem_iff, List.drop_eq_getElem_cons hlt, hget]
          exact List.mem_cons_self ..
        cases more with
        | nil => cases hnextmore
        | cons first more =>
          refine ks.after_of_le ?_ (follow_head hsize hmore)
          rcases List.mem_cons.1 hnextmore with rfl | hlater
          · exact ks.le_refl _
          · exact List.rel_of_pairwise_cons hmoresorted hlater
      have hdrop := answers.perm_drop hsize hlast hnext ⟨hbehind, hinfront⟩
      have hrest := ih hmore ⟨hleft.trans hdrop.symm, hmoresorted⟩
      rw [answers.keys_drop hdrop] at hrest
      refine (ks.separated_iff size _).2 ⟨?_, hrest⟩
      intro l n hl hn
      rw [List.getElem?_map, hlast] at hl
      rw [List.getElem?_map, hnext] at hn
      cases hl
      cases hn
      exact ⟨hbehind, hinfront⟩

/-- **Listing by anchors is exact** just when every page ends where its anchor is. -/
theorem lists_iff (answers : Answers ks key rows) (hsize : 0 < size) (hnodup : rows.Nodup) {keys}
    (hperm : keys.Perm (rows.map key)) (hsorted : keys.Pairwise ks.le) :
    (∃ fuel out, (follow (fetch answers size) fuel none : Except ε _) = .ok (some out) ∧ out.Perm rows ∧
      out.Pairwise fun a b => ks.le (key a) (key b)) ↔ ks.Separated size keys := by
  have hanswer : (answers.answer none).Perm rows := answers.perm none
  have hkeys : (answers.answer none).map key = keys := by
    refine ((hanswer.map key).trans hperm.symm).eq_of_pairwise (fun _ _ _ _ hab hba => ks.antisymm hab hba) ?_ hsorted
    exact List.pairwise_map.2 (answers.sorted none)
  rw [← hkeys]
  constructor
  · rintro ⟨fuel, out, hfollow, hout, horder⟩
    exact separated_of_lists hsize hnodup hfollow ⟨hout.trans hanswer.symm, horder⟩
  · intro h
    obtain ⟨out, hfollow, hout, horder⟩ := follow_of_separated hsize h (Nat.lt_succ_self _)
    exact ⟨_, out, hfollow, hout.trans hanswer, horder⟩

end KeysetPaging
