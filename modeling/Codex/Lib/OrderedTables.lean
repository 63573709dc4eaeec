/-
Tables that keep their entries in the order of insertion: a list of keys and values, a new
key at the end and a known one in its place. Reading after an insertion and a removal, and
what a table is when all its keys are renamed and put in anew (`rekey_of_nodup`): where no
two are given one name, the same entries.
-/
import Codex.Lib.KeyedList

namespace OrderedTables

variable {κ α β : Type}

/-- The entries with their keys renamed, whether or not two have the same name then. -/
def renamed (f : κ → κ) (t : List (κ × α)) : List (κ × α) := t.map fun entry => (f entry.1, entry.2)

def mapValues (g : κ → α → β) (t : List (κ × α)) : List (κ × β) := t.map fun entry => (entry.1, g entry.1 entry.2)

theorem keys_renamed (f : κ → κ) (t : List (κ × α)) : (renamed f t).map Prod.fst = (t.map Prod.fst).map f := by
  unfold renamed
  rw [List.map_map, List.map_map]
  rfl

theorem keys_mapValues (g : κ → α → β) (t : List (κ × α)) : (mapValues g t).map Prod.fst = t.map Prod.fst := by
  unfold mapValues
  rw [List.map_map]
  rfl

variable [DecidableEq κ]

def get : List (κ × α) → κ → Option α
  | [], _ => none
  | (k, v) :: t, key => if k = key then some v else get t key

def insert (t : List (κ × α)) (key : κ) (value : α) : List (κ × α) := KeyedList.upsert Prod.fst t (key, value)

def remove (t : List (κ × α)) (key : κ) : List (κ × α) := t.filter fun entry => entry.1 ≠ key

/-- The entry of a key, put in where there is none. -/
def orInsert (t : List (κ × α)) (key : κ) (value : α) : List (κ × α) :=
  match get t key with
  | some _ => t
  | none => insert t key value

/-- Every entry put in anew under another key, in order. -/
def rekey (f : κ → κ) (t : List (κ × α)) : List (κ × α) := t.foldl (fun t entry => insert t (f entry.1) entry.2) []

variable {t : List (κ × α)}

theorem get_eq_none_iff {key : κ} : get t key = none ↔ key ∉ t.map Prod.fst := by
  induction t with
  | nil => exact ⟨fun _ => List.not_mem_nil, fun _ => rfl⟩
  | cons entry t ih =>
    rw [List.map_cons, List.mem_cons, not_or, get]
    split
    next h => exact ⟨nofun, fun hne => absurd h.symm hne.1⟩
    next h => exact ih.trans ⟨fun hkey => ⟨Ne.symm h, hkey⟩, And.right⟩

theorem get_isSome_iff {key : κ} : (get t key).isSome ↔ key ∈ t.map Prod.fst := by
  rw [Option.isSome_iff_ne_none, Ne, get_eq_none_iff, not_not]

theorem mem_of_get {key : κ} {value : α} (h : get t key = some value) : (key, value) ∈ t := by
  induction t with
  | nil => cases h
  | cons entry t ih =>
    rw [get] at h
    split at h
    next hkey =>
      obtain rfl := Option.some.inj h
      rw [← hkey]
      exact List.mem_cons_self
    next => exact List.mem_cons_of_mem _ (ih h)

/-- In a table whose keys are distinct each entry is the one read. -/
theorem get_of_mem (hnodup : (t.map Prod.fst).Nodup) {key : κ} {value : α} (h : (key, value) ∈ t) :
    get t key = some value := by
  induction t with
  | nil => cases h
  | cons entry t ih =>
    rw [List.map_cons, List.nodup_cons] at hnodup
    rw [get]
    rcases List.mem_cons.1 h with heq | hin
    · rw [← heq, if_pos rfl]
    · rw [if_neg, ih hnodup.2 hin]
      rintro rfl
      exact hnodup.1 (List.mem_map.2 ⟨_, hin, rfl⟩)

theorem get_insert (t : List (κ × α)) (key : κ) (value : α) (key' : κ) :
    get (insert t key value) key' = if key = key' then some value else get t key' := by
  induction t with
  | nil => rfl
  | cons entry t ih =>
    obtain ⟨k, v⟩ := entry
    unfold insert KeyedList.upsert
    by_cases hk : k = key
    · subst hk
      rw [if_pos rfl, get, get]
      split <;> rfl
    · rw [if_neg hk, get, get]
      by_cases hkey' : k = key'
      · subst hkey'
        rw [if_pos rfl, if_pos rfl, if_neg (Ne.symm hk)]
      · rw [if_neg hkey', if_neg hkey']
        exact ih

theorem get_remove (t : List (κ × α)) (key key' : κ) : get (remove t key) key' = if key = key' then none else get t key' := by
  induction t with
  | nil =>
    split <;> rfl
  | cons entry t ih =>
    obtain ⟨k, v⟩ := entry
    unfold remove at ih ⊢
    rw [List.filter_cons]
    by_cases hk : k = key
    · subst hk
      rw [if_neg (by simp), ih, get]
      split <;> rfl
    · rw [if_pos (by simpa using hk), get, get, ih]
      by_cases hkey : key = key'
      · rw [if_pos hkey, if_pos hkey, if_neg (hkey ▸ hk)]
      · rw [if_neg hkey, if_neg hkey]

theorem nodup_insert (h : (t.map Prod.fst).Nodup) (key : κ) (value : α) : ((insert t key value).map Prod.fst).Nodup :=
  KeyedList.nodup_upsert h (key, value)

theorem nodup_remove (h : (t.map Prod.fst).Nodup) (key : κ) : ((remove t key).map Prod.fst).Nodup :=
  h.sublist (List.filter_sublist.map Prod.fst)

theorem get_mapValues (g : κ → α → β) (t : List (κ × α)) (key : κ) : get (mapValues g t) key = (get t key).map (g key) := by
  induction t with
  | nil => rfl
  | cons entry t ih =>
    show (if entry.1 = key then some (g entry.1 entry.2) else get (mapValues g t) key) = _
    rw [get]
    split
    next h =>
      rw [h]
      rfl
    next => exact ih

/-! ## The operations and a map of the values -/

section

variable (g : α → β) (t : List (κ × α)) (key : κ) (value : α)

theorem mapValues_insert : mapValues (fun _ => g) (insert t key value) = insert (mapValues (fun _ => g) t) key (g value) := by
  induction t with
  | nil => rfl
  | cons entry t ih =>
    unfold insert mapValues at ih ⊢
    rw [List.map_cons, KeyedList.upsert, KeyedList.upsert]
    split
    next => rw [List.map_cons]
    next => rw [List.map_cons, ih]

theorem mapValues_remove : mapValues (fun _ => g) (remove t key) = remove (mapValues (fun _ => g) t) key := by
  unfold mapValues remove
  rw [List.filter_map]
  rfl

theorem mapValues_orInsert :
    mapValues (fun _ => g) (orInsert t key value) = orInsert (mapValues (fun _ => g) t) key (g value) := by
  unfold orInsert
  rw [get_mapValues]
  cases get t key with
  | none => exact mapValues_insert g t key value
  | some _ => rfl

theorem mapValues_rekey (f : κ → κ) : mapValues (fun _ => g) (rekey f t) = rekey f (mapValues (fun _ => g) t) := by
  have hgeneral : ∀ t pre : List (κ × α),
      mapValues (fun _ => g) (t.foldl (fun t entry => insert t (f entry.1) entry.2) pre) =
        (mapValues (fun _ => g) t).foldl (fun t entry => insert t (f entry.1) entry.2) (mapValues (fun _ => g) pre) := by
    intro t
    induction t with
    | nil => exact fun _ => rfl
    | cons entry t ih =>
      intro pre
      rw [List.foldl_cons, ih, mapValues_insert]
      rfl
  exact hgeneral t []

end

/-! ## Renaming -/

theorem mem_insert {key : κ} {value : α} {entry} (h : entry ∈ insert t key value) :
    entry = (key, value) ∨ entry ∈ t :=
  KeyedList.mem_upsert h

theorem mem_rekey {f : κ → κ} {entry} (h : entry ∈ rekey f t) : ∃ key, entry.1 = f key ∧ (key, entry.2) ∈ t := by
  have hgeneral : ∀ t pre : List (κ × α), entry ∈ t.foldl (fun t entry => insert t (f entry.1) entry.2) pre →
      entry ∈ pre ∨ ∃ key, entry.1 = f key ∧ (key, entry.2) ∈ t := by
    intro t
    induction t with
    | nil => exact fun _ => .inl
    | cons first t ih =>
      intro pre hentry
      rcases ih _ hentry with hpre | ⟨key, hkey, hin⟩
      · rcases mem_insert hpre with rfl | hold
        · exact .inr ⟨first.1, rfl, List.mem_cons_self⟩
        · exact .inl hold
      · exact .inr ⟨key, hkey, List.mem_cons_of_mem _ hin⟩
  exact (hgeneral t [] h).resolve_left List.not_mem_nil

/-- Where the names differ, renaming puts every entry at the end. -/
theorem rekey_of_nodup {f : κ → κ} (h : ((t.map Prod.fst).map f).Nodup) : rekey f t = renamed f t := by
  have hgeneral : ∀ pre : List (κ × α), (∀ entry ∈ pre, ∀ entry' ∈ t, entry.1 ≠ f entry'.1) →
      t.foldl (fun t entry => insert t (f entry.1) entry.2) pre = pre ++ renamed f t := by
    induction t with
    | nil =>
      intro pre _
      exact (List.append_nil pre).symm
    | cons entry t ih =>
      intro pre hpre
      rw [List.map_cons, List.map_cons, List.nodup_cons] at h
      have hnew : insert pre (f entry.1) entry.2 = pre ++ [(f entry.1, entry.2)] :=
        KeyedList.upsert_of_new fun x hx => hpre x hx entry List.mem_cons_self
      rw [List.foldl_cons, hnew, ih h.2, List.append_assoc]
      · rfl
      · intro entry' hentry' other hother
        rcases List.mem_append.1 hentry' with hold | hnew'
        · exact hpre entry' hold other (List.mem_cons_of_mem _ hother)
        · rw [List.mem_singleton.1 hnew']
          intro heq
          exact h.1 (List.mem_map.2 ⟨other.1, List.mem_map_of_mem hother, heq.symm⟩)
  exact (hgeneral [] nofun).trans (List.nil_append _)

end OrderedTables
