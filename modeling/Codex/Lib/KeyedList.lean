/-
Lists whose elements have keys. A change of such a list is a list of elements
to insert or replace by key (`upsertAll`), and two changes one after the other
are one change: the first, itself changed by the second (`upsertAll_upsertAll`).

A slot table is how such a list is kept with an index of its keys: an erased
element leaves its slot empty, so that the slots of the others stay.
-/
import Mathlib.Data.List.Nodup
import Mathlib.Data.List.ReduceOption
import Mathlib.Tactic.Common

namespace KeyedList

variable {α β κ : Type*} [DecidableEq κ] (key : β → κ)

/-- Puts `v` in the place of the first element with its key, or at the end. -/
def upsert (xs : List β) (v : β) : List β :=
  match xs with
  | [] => [v]
  | x :: xs => if key x = key v then v :: xs else x :: upsert xs v

def upsertAll (xs vs : List β) : List β := vs.foldl (upsert key) xs

variable {key}

variable {xs : List β} {v w : β} {ys : List β}

theorem upsert_of_new (h : ∀ x ∈ xs, key x ≠ key v) : upsert key xs v = xs ++ [v] := by
  induction xs with
  | nil => rfl
  | cons x xs ih => rw [upsert, if_neg (h x (by simp)), ih fun y hy => h y (by simp [hy]), List.cons_append]

theorem upsert_split {pre post : List β} {x : β} (h : ∀ y ∈ pre, key y ≠ key v) (hx : key x = key v) :
    upsert key (pre ++ x :: post) v = pre ++ v :: post := by
  induction pre with
  | nil => rw [List.nil_append, upsert, if_pos hx, List.nil_append]
  | cons y pre ih => rw [List.cons_append, upsert, if_neg (h y (by simp)), ih fun z hz => h z (by simp [hz]), List.cons_append]

theorem mem_upsert {x : β} (h : x ∈ upsert key xs v) : x = v ∨ x ∈ xs := by
  induction xs with
  | nil => exact .inl (List.mem_singleton.1 h)
  | cons y xs ih =>
    rw [upsert] at h
    split at h
    · rcases List.mem_cons.1 h with rfl | hin
      · exact .inl rfl
      · exact .inr (List.mem_cons_of_mem _ hin)
    · rcases List.mem_cons.1 h with rfl | hin
      · exact .inr (List.mem_cons_self ..)
      · exact (ih hin).imp_right (List.mem_cons_of_mem _)

theorem keys_upsert (xs : List β) (v : β) :
    (upsert key xs v).map key = if key v ∈ xs.map key then xs.map key else xs.map key ++ [key v] := by
  induction xs with
  | nil => rfl
  | cons x xs ih =>
    rw [upsert]
    by_cases hx : key x = key v
    · simp [hx]
    · rw [if_neg hx, List.map_cons, ih]
      have hv : key v ∈ (x :: xs).map key ↔ key v ∈ xs.map key := by simp [Ne.symm hx]
      by_cases hin : key v ∈ xs.map key
      · rw [if_pos hin, if_pos (hv.2 hin), List.map_cons]
      · rw [if_neg hin, if_neg (mt hv.1 hin), List.map_cons, List.cons_append]

theorem nodup_upsert (h : (xs.map key).Nodup) (v : β) : ((upsert key xs v).map key).Nodup := by
  rw [keys_upsert]
  split
  · exact h
  · next hv => exact List.nodup_append.2 ⟨h, List.nodup_singleton _, fun k hk k' hk' => by
      rw [List.mem_singleton.1 hk']
      rintro rfl
      exact hv hk⟩

theorem filter_upsert (p : κ → Bool) (xs : List β) (v : β) :
    (upsert key xs v).filter (fun x => p (key x)) =
      if p (key v) then upsert key (xs.filter fun x => p (key x)) v else xs.filter fun x => p (key x) := by
  induction xs with
  | nil => cases hv : p (key v) <;> simp [upsert, hv]
  | cons x xs ih =>
    rw [upsert]
    by_cases hx : key x = key v
    · cases hv : p (key v) <;> simp [upsert, hx, hv]
    · rw [if_neg hx, List.filter_cons, ih]
      cases hv : p (key v) <;> cases hpx : p (key x) <;> simp [upsert, hx, hpx]

/-- A list that is keyed through `f` in the same way. -/
theorem map_upsert {γ : Type*} {f : β → γ} {key' : γ → κ'} [DecidableEq κ']
    (h : ∀ x ∈ xs, key x = key v ↔ key' (f x) = key' (f v)) :
    (upsert key xs v).map f = upsert key' (xs.map f) (f v) := by
  induction xs with
  | nil => rfl
  | cons x xs ih =>
    have hx := h x (by simp)
    rw [upsert, List.map_cons, upsert]
    by_cases hk : key x = key v
    · rw [if_pos hk, if_pos (hx.1 hk), List.map_cons]
    · rw [if_neg hk, if_neg (mt hx.2 hk), List.map_cons, ih fun y hy => h y (by simp [hy])]

/-! ## Two changes as one -/

theorem upsert_same (h : key v = key w) : upsert key (upsert key xs v) w = upsert key xs w := by
  induction xs with
  | nil => simp [upsert, h]
  | cons x xs ih =>
    by_cases hx : key x = key w
    · simp [upsert, hx, h]
    · simp [upsert, hx, h, ih]

/-- The order of two changes matters only when both are insertions. -/
theorem upsert_comm (hne : key v ≠ key w) (hw : key w ∈ xs.map key) :
    upsert key (upsert key xs v) w = upsert key (upsert key xs w) v := by
  induction xs with
  | nil => cases hw
  | cons x xs ih =>
    by_cases hxv : key x = key v
    · simp [upsert, hxv, hne]
    · by_cases hxw : key x = key w
      · simp [upsert, hxw, hne.symm]
      · have hin : key w ∈ xs.map key := by simpa [Ne.symm hxw] using hw
        simp [upsert, hxv, hxw, ih hin]

theorem upsertAll_cons (xs : List β) (v : β) (vs : List β) :
    upsertAll key xs (v :: vs) = upsertAll key (upsert key xs v) vs := rfl

theorem upsertAll_append (xs vs ws : List β) :
    upsertAll key xs (vs ++ ws) = upsertAll key (upsertAll key xs vs) ws := List.foldl_append

theorem upsertAll_comm {vs} (hw : key w ∈ xs.map key) (hvs : key w ∉ vs.map key) :
    upsert key (upsertAll key xs vs) w = upsertAll key (upsert key xs w) vs := by
  induction vs generalizing xs with
  | nil => rfl
  | cons v vs ih =>
    rw [List.map_cons, List.mem_cons, not_or] at hvs
    have hin : key w ∈ (upsert key xs v).map key := by
      rw [keys_upsert]
      split
      · exact hw
      · exact List.mem_append_left _ hw
    rw [upsertAll_cons, upsertAll_cons, ih hin hvs.2, upsert_comm (Ne.symm hvs.1) hw]

theorem upsert_upsertAll (h : (ys.map key).Nodup) (z : β) :
    upsert key (upsertAll key xs ys) z = upsertAll key xs (upsert key ys z) := by
  induction ys generalizing xs with
  | nil => rfl
  | cons y ys ih =>
    obtain ⟨hy, hys⟩ := List.nodup_cons.1 h
    rw [upsert]
    by_cases hk : key y = key z
    · -- `z` takes the place of `y`, which no later element of the change touches
      have hin : key z ∈ (upsert key xs y).map key := by
        rw [keys_upsert, ← hk]
        split
        · assumption
        · simp
      rw [if_pos hk, upsertAll_cons, upsertAll_cons, upsertAll_comm hin (hk ▸ hy), upsert_same hk]
    · rw [if_neg hk, upsertAll_cons, upsertAll_cons, ih hys]

/-- **Two changes are one**: the first, changed by the second. -/
theorem upsertAll_upsertAll (h : (ys.map key).Nodup) (zs : List β) :
    upsertAll key (upsertAll key xs ys) zs = upsertAll key xs (upsertAll key ys zs) := by
  induction zs generalizing ys with
  | nil => rfl
  | cons z zs ih => rw [upsertAll_cons, upsertAll_cons, upsert_upsertAll h, ih (nodup_upsert h z)]

theorem filter_upsertAll (p : κ → Bool) (xs vs : List β) :
    (upsertAll key xs vs).filter (fun x => p (key x)) =
      upsertAll key (xs.filter fun x => p (key x)) (vs.filter fun x => p (key x)) := by
  induction vs generalizing xs with
  | nil => rfl
  | cons v vs ih =>
    rw [upsertAll_cons, ih, filter_upsert]
    cases hv : p (key v)
    · rw [if_neg (by simp), List.filter_cons_of_neg (by simp [hv])]
    · rw [if_pos rfl, List.filter_cons_of_pos (by simpa using hv), upsertAll_cons]

/-- Two changes as one, when each first deletes elements by their keys. -/
theorem upsertAll_filter_upsertAll {p q r : κ → Bool} (hr : ∀ k, r k = (p k && q k)) (xs : List β)
    (h : (ys.map key).Nodup) (zs : List β) :
    upsertAll key (xs.filter fun x => r (key x)) (upsertAll key (ys.filter fun y => q (key y)) zs) =
      upsertAll key ((upsertAll key (xs.filter fun x => p (key x)) ys).filter fun x => q (key x)) zs := by
  have hys : ((ys.filter fun y => q (key y)).map key).Nodup := h.sublist ((List.filter_sublist).map key)
  rw [← upsertAll_upsertAll hys, filter_upsertAll, List.filter_filter]
  congr 2
  exact List.filter_congr fun x _ => by rw [hr, Bool.and_comm]

end KeyedList

/-! ## Slot tables -/

/-- Elements in slots, and the slot of each key. -/
structure SlotTable (κ β : Type*) where
  slots : List (Option β) := []
  indexes : List (κ × Nat) := []

namespace SlotTable

open KeyedList

variable {β κ : Type*} [DecidableEq κ] (key : β → κ)

/-- An element with a known key replaces what is in its slot; another takes a new slot. -/
def put (t : SlotTable κ β) (v : β) : SlotTable κ β :=
  match t.indexes.lookup (key v) with
  | some index => { t with slots := t.slots.set index (some v) }
  | none => { slots := t.slots ++ [some v], indexes := (key v, t.slots.length) :: t.indexes }

def erase (t : SlotTable κ β) (k : κ) : SlotTable κ β :=
  match t.indexes.lookup k with
  | some index => { slots := t.slots.set index none, indexes := t.indexes.filter (·.1 != k) }
  | none => t

def values (t : SlotTable κ β) : List β := t.slots.reduceOption

/-- The index finds exactly the elements in the slots. -/
structure Valid (t : SlotTable κ β) : Prop where
  found : ∀ k i, t.indexes.lookup k = some i ↔ ∃ v, t.slots[i]? = some (some v) ∧ key v = k
  nodup : (t.values.map key).Nodup

variable {key} {t : SlotTable κ β}

theorem valid_empty : Valid key ({} : SlotTable κ β) :=
  { found := fun k i => by simp, nodup := List.nodup_nil }

theorem Valid.split (h : t.Valid key) {k : κ} {i : Nat} (hi : t.indexes.lookup k = some i) :
    ∃ pre w post, t.slots = pre ++ some w :: post ∧ pre.length = i ∧ key w = k ∧
      (∀ x ∈ pre.reduceOption, key x ≠ k) ∧ ∀ x ∈ post.reduceOption, key x ≠ k := by
  obtain ⟨w, hw, hk⟩ := (h.found k i).1 hi
  obtain ⟨hlt, hget⟩ := List.getElem?_eq_some_iff.1 hw
  have hslots : t.slots = t.slots.take i ++ some w :: t.slots.drop (i + 1) := by
    rw [← hget, List.getElem_cons_drop, List.take_append_drop]
  have hnodup := h.nodup
  rw [values, hslots, List.reduceOption_append, List.reduceOption_cons_of_some, List.map_append, List.map_cons,
    List.nodup_append] at hnodup
  obtain ⟨-, hpost, hpre⟩ := hnodup
  refine ⟨_, w, _, hslots, by simp; omega, hk, fun x hx hxk => ?_, fun x hx hxk => ?_⟩
  · exact hpre _ (List.mem_map_of_mem hx) _ (List.mem_cons_self ..) (hxk.trans hk.symm)
  · exact (List.nodup_cons.1 hpost).1 (List.mem_map.2 ⟨x, hx, hxk.trans hk.symm⟩)

theorem Valid.key_ne_of_not_found (h : t.Valid key) {k : κ} (hk : t.indexes.lookup k = none) {x : β}
    (hx : x ∈ t.values) : key x ≠ k := by
  rintro rfl
  obtain ⟨i, hi⟩ := List.mem_iff_getElem?.1 (List.reduceOption_mem_iff.1 hx)
  cases hk.symm.trans ((h.found (key x) i).2 ⟨x, hi, rfl⟩)

/-- **Putting an element** inserts it, or replaces the one with its key. -/
theorem values_put (h : t.Valid key) (v : β) : (t.put key v).values = upsert key t.values v := by
  unfold put
  split
  · next i hi =>
    obtain ⟨pre, w, post, hslots, rfl, hk, hpre, -⟩ := h.split hi
    simp only [values, hslots, List.set_append_right _ _ (Nat.le_refl _), Nat.sub_self, List.set_cons_zero,
      List.reduceOption_append, List.reduceOption_cons_of_some]
    exact (upsert_split hpre hk).symm
  · next hnone =>
    have hnew : upsert key t.values v = t.values ++ [v] := upsert_of_new fun x hx => h.key_ne_of_not_found hnone hx
    rw [hnew]
    simp [values, List.reduceOption_append]

theorem Valid.put (h : t.Valid key) (v : β) : (t.put key v).Valid key := by
  refine ⟨fun k i => ?_, by rw [values_put h]; exact nodup_upsert h.nodup v⟩
  unfold SlotTable.put
  split
  · next index hindex =>
    obtain ⟨w, hw, hkw⟩ := (h.found _ _).1 hindex
    have hlt := (List.getElem?_eq_some_iff.1 hw).1
    rw [h.found k i]
    by_cases hi : index = i
    · subst hi
      rw [hw, List.getElem?_set_self hlt]
      simp [hkw]
    · rw [List.getElem?_set_ne hi]
  · next hnone =>
    rw [List.lookup_cons]
    by_cases hk : k = key v
    · subst hk
      have hold : ¬ ∃ u, t.slots[i]? = some (some u) ∧ key u = key v := by
        rw [← h.found, hnone]
        exact fun hnot => by cases hnot
      rcases Nat.lt_trichotomy i t.slots.length with hi | rfl | hi
      · rw [List.getElem?_append_left hi]
        simpa [Nat.ne_of_gt hi] using hold
      · simp
      · rw [List.getElem?_append_right (Nat.le_of_lt hi), List.getElem?_eq_none (by simp; omega)]
        simp [Nat.ne_of_lt hi]
    · rw [beq_eq_false_iff_ne.2 hk]
      refine (h.found k i).trans ?_
      rcases Nat.lt_trichotomy i t.slots.length with hi | rfl | hi
      · rw [List.getElem?_append_left hi]
      · simp [Ne.symm hk]
      · rw [List.getElem?_append_right (Nat.le_of_lt hi), List.getElem?_eq_none (Nat.le_of_lt hi),
          List.getElem?_eq_none (by simp; omega)]

theorem Valid.putAll (h : t.Valid key) (vs : List β) :
    (vs.foldl (SlotTable.put key) t).Valid key ∧ (vs.foldl (SlotTable.put key) t).values = upsertAll key t.values vs := by
  induction vs generalizing t with
  | nil => exact ⟨h, rfl⟩
  | cons v vs ih =>
    obtain ⟨hvalid, hvalues⟩ := ih (h.put v)
    exact ⟨hvalid, hvalues.trans (by rw [upsertAll_cons, values_put h])⟩

theorem values_erase (h : t.Valid key) (k : κ) : (t.erase k).values = t.values.filter (key · ≠ k) := by
  unfold erase
  split
  · next i hi =>
    obtain ⟨pre, w, post, hslots, rfl, hk, hpre, hpost⟩ := h.split hi
    have hpre' : pre.reduceOption.filter (key · ≠ k) = pre.reduceOption := List.filter_eq_self.2 (by simpa using hpre)
    have hpost' : post.reduceOption.filter (key · ≠ k) = post.reduceOption := List.filter_eq_self.2 (by simpa using hpost)
    simp only [values, hslots, List.set_append_right _ _ (Nat.le_refl _), Nat.sub_self, List.set_cons_zero,
      List.reduceOption_append, List.reduceOption_cons_of_some, List.reduceOption_cons_of_none, List.filter_append]
    rw [List.filter_cons_of_neg (by simp [hk]), hpre', hpost']
  · next hnone =>
    exact (List.filter_eq_self.2 fun x hx => by simpa using h.key_ne_of_not_found hnone hx).symm

theorem lookup_erased (indexes : List (κ × Nat)) (k k' : κ) :
    (indexes.filter (·.1 != k)).lookup k' = if k' = k then none else indexes.lookup k' := by
  induction indexes with
  | nil => simp
  | cons entry indexes ih =>
    obtain ⟨k'', i⟩ := entry
    by_cases hk : k'' = k
    · subst hk
      rw [List.filter_cons_of_neg (by simp), ih, List.lookup_cons]
      split
      · rfl
      · next hne => rw [beq_eq_false_iff_ne.2 hne]
    · rw [List.filter_cons_of_pos (by simpa using hk), List.lookup_cons, List.lookup_cons, ih]
      by_cases hkk : k' = k''
      · simp [hkk, hk]
      · simp [beq_eq_false_iff_ne.2 hkk]

theorem Valid.erase (h : t.Valid key) (k : κ) : (t.erase k).Valid key := by
  refine ⟨fun k' i => ?_, by
    rw [values_erase h]
    exact h.nodup.sublist ((List.filter_sublist).map key)⟩
  unfold SlotTable.erase
  split
  · next index hindex =>
    obtain ⟨w, hw, hkw⟩ := (h.found _ _).1 hindex
    have hlt := (List.getElem?_eq_some_iff.1 hw).1
    rw [lookup_erased]
    by_cases hi : index = i
    · subst hi
      rw [List.getElem?_set_self hlt]
      split
      · simp
      · next hne =>
        rw [h.found k' index, hw]
        simp [hkw, Ne.symm hne]
    · rw [List.getElem?_set_ne hi, ← h.found]
      split
      · next heq =>
        subst heq
        rw [hindex]
        simpa using hi
      · rfl
  · exact h.found k' i

/-- **Erasing keys** leaves the elements with other keys. -/
theorem values_eraseAll (h : t.Valid key) (ks : List κ) :
    (ks.foldl SlotTable.erase t).Valid key ∧ (ks.foldl SlotTable.erase t).values = t.values.filter (key · ∉ ks) := by
  induction ks generalizing t with
  | nil => exact ⟨h, by simp⟩
  | cons k ks ih =>
    obtain ⟨hvalid, hvalues⟩ := ih (h.erase k)
    refine ⟨hvalid, hvalues.trans ?_⟩
    rw [values_erase h, List.filter_filter]
    exact List.filter_congr fun x _ => by simp [Bool.and_comm]

theorem Valid.mem_keys (h : t.Valid key) {x : β} (hx : x ∈ t.values) : key x ∈ t.indexes.map (·.1) := by
  by_contra hnot
  refine h.key_ne_of_not_found (List.lookup_eq_none_iff.2 fun entry hentry => ?_) hx rfl
  rw [bne_iff_ne]
  intro heq
  exact hnot (List.mem_map.2 ⟨entry, hentry, heq.symm⟩)

end SlotTable
