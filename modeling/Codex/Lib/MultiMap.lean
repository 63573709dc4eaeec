/-
Maps from keys to the list of values inserted under each key, in insertion
order (`vals`). Inserting all of another map's values appends its list to the
list of each key (`vals_extendAll`).
-/
import Mathlib.Data.List.AList
import Mathlib.Tactic.Common

/-- A map from keys to the values inserted under them. -/
structure MultiMap (κ ν : Type*) where
  map : AList (fun _ : κ => List ν)

namespace MultiMap

variable {κ ν : Type*} [DecidableEq κ]

def empty : MultiMap κ ν := ⟨∅⟩

def getVec (m : MultiMap κ ν) (k : κ) : Option (List ν) := m.map.lookup k

/-- The values under `k`, none where there is no such key. -/
def vals (m : MultiMap κ ν) (k : κ) : List ν := (m.getVec k).getD []

def insert (m : MultiMap κ ν) (k : κ) (v : ν) : MultiMap κ ν := ⟨m.map.insert k (m.vals k ++ [v])⟩

/-- Every key with its values. -/
def iterAll (m : MultiMap κ ν) : List (κ × List ν) := m.map.entries.map fun e => (e.1, e.2)

def extendAll (m o : MultiMap κ ν) : MultiMap κ ν :=
  o.iterAll.foldl (fun m e => e.2.foldl (fun m v => m.insert e.1 v) m) m

theorem vals_insert (m : MultiMap κ ν) (k k' : κ) (v : ν) :
    (m.insert k v).vals k' = if k' = k then m.vals k' ++ [v] else m.vals k' := by
  rw [vals, getVec, insert]
  split
  next h => subst h; rw [AList.lookup_insert, Option.getD_some]
  next h => rw [AList.lookup_insert_ne h]; rfl

theorem vals_insertList (vs : List ν) (k k' : κ) (m : MultiMap κ ν) :
    (vs.foldl (fun m v => m.insert k v) m).vals k' = if k' = k then m.vals k' ++ vs else m.vals k' := by
  induction vs generalizing m with
  | nil => simp
  | cons v vs ih =>
    rw [List.foldl_cons, ih, vals_insert]
    split
    · rw [List.append_assoc, List.singleton_append]
    · rfl

/-- A key without an entry gains nothing, whatever the entries are folded onto. -/
theorem vals_extend_of_notMem {es : List (κ × List ν)} {k : κ} (h : k ∉ es.map Prod.fst) (m : MultiMap κ ν) :
    (es.foldl (fun m e => e.2.foldl (fun m v => m.insert e.1 v) m) m).vals k = m.vals k := by
  induction es generalizing m with
  | nil => rfl
  | cons e es ih =>
    rw [List.map_cons, List.mem_cons, not_or] at h
    rw [List.foldl_cons, ih h.2, vals_insertList, if_neg h.1]

theorem vals_extend (es : List (Sigma fun _ : κ => List ν)) (hn : es.NodupKeys) (k : κ) (m : MultiMap κ ν) :
    ((es.map fun e => (e.1, e.2)).foldl (fun m e => e.2.foldl (fun m v => m.insert e.1 v) m) m).vals k =
      m.vals k ++ (es.dlookup k).getD [] := by
  induction es generalizing m with
  | nil => simp
  | cons e es ih =>
    obtain ⟨k', vs⟩ := e
    rw [List.nodupKeys_cons] at hn
    rw [List.map_cons, List.foldl_cons]
    by_cases hk : k = k'
    · subst hk
      have hnot : k ∉ (es.map fun e => (e.1, e.2)).map Prod.fst := by
        rw [List.map_map]
        exact hn.1
      rw [vals_extend_of_notMem hnot, vals_insertList, if_pos rfl, List.dlookup_cons_eq, Option.getD_some]
    · rw [ih hn.2, vals_insertList, if_neg hk, List.dlookup_cons_ne _ _ hk]

theorem vals_extendAll (m o : MultiMap κ ν) (k : κ) : (m.extendAll o).vals k = m.vals k ++ o.vals k :=
  vals_extend o.map.entries o.map.nodupKeys k m

end MultiMap
