/-
Association lists whose values do not depend on the key: reading after an
insert or an erase as `Function.update`, sizes when a key goes, and tallies, sums
of a number over the values, when a key comes, goes or changes its value.
-/
import Mathlib.Algebra.BigOperators.Group.List.Basic
import Mathlib.Algebra.Order.Ring.Nat
import Mathlib.Data.List.AList

namespace FiniteMaps

open Function (update update_self update_of_ne)

variable {α β : Type} [DecidableEq α]

theorem lookup_insert_eq (m : AList fun _ : α => β) (a : α) (b : β) :
    (fun a' => (m.insert a b).lookup a') = update (fun a' => m.lookup a') a (some b) := by
  funext a'
  by_cases h : a' = a
  · subst h
    rw [update_self, AList.lookup_insert]
  · rw [update_of_ne h, AList.lookup_insert_ne h]

theorem lookup_erase_eq (m : AList fun _ : α => β) (a : α) :
    (fun a' => (m.erase a).lookup a') = update (fun a' => m.lookup a') a none := by
  funext a'
  by_cases h : a' = a
  · subst h
    rw [update_self, AList.lookup_erase]
  · rw [update_of_ne h, AList.lookup_erase_ne h]

/-- Erasing a key that is there shortens the map. -/
theorem length_erase {m : AList fun _ : α => β} {a : α} (h : (m.lookup a).isSome) :
    (m.erase a).entries.length + 1 = m.entries.length := by
  have hk : a ∈ m.keys := AList.mem_keys.1 (AList.lookup_isSome.1 h)
  have hlen : (m.erase a).keys.length = m.keys.length - 1 := by rw [AList.keys_erase, List.length_erase_of_mem hk]
  have hpos : 0 < m.keys.length := List.length_pos_of_mem hk
  simp only [AList.keys, List.keys, List.length_map] at hlen hpos
  omega

theorem sum_eq (f : α → β → Nat) {entries : List (Sigma fun _ : α => β)} (a : α) (h : entries.NodupKeys) :
    (entries.map fun entry => f entry.1 entry.2).sum =
      ((entries.kerase a).map fun entry => f entry.1 entry.2).sum + ((entries.dlookup a).map (f a)).getD 0 := by
  induction entries with
  | nil => rfl
  | cons entry entries ih =>
    obtain ⟨a', b⟩ := entry
    by_cases ha : a = a'
    · subst ha
      simp [List.kerase, List.eraseP, Nat.add_comm]
    · have hrest := ih (List.nodupKeys_cons.1 h).2
      simp [List.eraseP, ha]
      omega

/-! ### Tallies -/

def tally (f : α → β → Nat) (m : AList fun _ : α => β) : Nat := (m.entries.map fun entry => f entry.1 entry.2).sum

variable {f : α → β → Nat} {m : AList fun _ : α => β} {a : α}

theorem tally_erase {b : β} (h : m.lookup a = some b) : tally f m = tally f (m.erase a) + f a b := by
  have hsum := sum_eq f a m.nodupKeys
  have hlookup : m.entries.dlookup a = some b := h
  rw [hlookup] at hsum
  exact hsum

theorem tally_insert_new (h : m.lookup a = none) (b : β) : tally f (m.insert a b) = f a b + tally f m := by
  rw [tally, AList.entries_insert_of_notMem (AList.lookup_eq_none.1 h), List.map_cons, List.sum_cons]
  rfl

/-- A key's value changes. -/
theorem tally_insert_old {b : β} (h : m.lookup a = some b) (b' : β) :
    tally f (m.insert a b') + f a b = f a b' + tally f m := by
  have hinsert : tally f (m.insert a b') = f a b' + tally f (m.erase a) := rfl
  rw [hinsert, tally_erase h]
  omega

theorem le_tally {b : β} (h : m.lookup a = some b) : f a b ≤ tally f m := by
  rw [tally_erase h]
  omega

end FiniteMaps
