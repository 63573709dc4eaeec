/-
What a dropped reservation leaves behind: nothing. A run in which it is dropped
ends with the count and the tree of the run that does without it, where what
was refused in the first is left out as well (`others`).

Side by side (`Without`) the second has the same tree but for the placeholder, and one
slot fewer while the reservation is there.
-/
import Codex.AgentSlots

namespace Codex.Agents

open Runs FiniteMaps

/-! ## The run without a reservation -/

def Action.reservation : Action → Option ReservationId
  | .reserveSpawnSlot r _ | .reserveAgentPath r _ | .commit r _ | .dropPath r | .dropSlot r => some r
  | .registerRootThread _ | .releaseAgent .. | .releaseSlot => none

/-- The calls that can fail, where they do. -/
def refused (w : World) : Action → Bool
  | .reserveSpawnSlot _ maxThreads => maxThreads.any (· ≤ w.registry.totalCount)
  | .reserveAgentPath _ path => (w.registry.agentTree.lookup (.path path)).isSome
  | .commit .. | .dropPath _ | .dropSlot _ | .registerRootThread _ | .releaseAgent .. | .releaseSlot => false

/-- What the other tasks do with success. -/
def others (r : ReservationId) : World → List Action → List Action
  | _, [] => []
  | w, a :: actions =>
    if a.reservation = some r ∨ refused w a then others r (step w a) actions else a :: others r (step w a) actions

/-- The reservation is not committed, and takes one path at most. -/
def Undone (r : ReservationId) (w : World) : Action → Prop
  | .reserveAgentPath r' path => r' = r → w.registry.agentTree.lookup (.path path) = none →
      ∀ reservation, w.reservations.lookup r = some reservation → reservation.reservedAgentPath = none
  | .commit r' _ => r' ≠ r
  | .reserveSpawnSlot .. | .dropPath _ | .dropSlot _ | .registerRootThread _ | .releaseAgent .. | .releaseSlot => True

/-- The key of the reservation's placeholder. -/
def heldKey (reservations : AList fun _ : ReservationId => SpawnReservation) (r : ReservationId) : Option AgentKey :=
  (reservations.lookup r).bind fun reservation => reservation.reservedAgentPath.map AgentKey.path

/-- What the tree holds but for the reservation's placeholder. -/
def World.agentBut (w : World) (r : ReservationId) (key : AgentKey) : Option AgentMetadata :=
  if heldKey w.reservations r = some key then none else w.registry.agentTree.lookup key

/-- `t` is `w` without the reservation. -/
structure Without (r : ReservationId) (w t : World) : Prop where
  count : w.registry.totalCount = t.registry.totalCount + (w.reservations.lookup r).isSome.toNat
  gone : t.reservations.lookup r = none
  others : ∀ r', r' ≠ r → t.reservations.lookup r' = w.reservations.lookup r'
  tree : ∀ key, t.registry.agentTree.lookup key = w.agentBut r key
  releasing : t.releasing = w.releasing

theorem heldKey_of_lookup {reservations : AList fun _ : ReservationId => SpawnReservation} {r found} (h : reservations.lookup r = found) :
    heldKey reservations r = found.bind fun reservation => reservation.reservedAgentPath.map AgentKey.path := by
  unfold heldKey
  rw [h]

/-- The placeholder is there. -/
theorem Consistent.lookup_heldKey {w} (h : Consistent w) {r key}
    (hkey : heldKey w.reservations r = some key) : ∃ path, key = .path path ∧ path ≠ rootPath ∧
      w.registry.agentTree.lookup key = some { agentPath := some path } := by
  obtain ⟨reservation, hlookup, hreserved⟩ := Option.bind_eq_some_iff.1 hkey
  obtain ⟨path, hpath, rfl⟩ := Option.map_eq_some_iff.1 hreserved
  obtain ⟨hheld, hroot⟩ := h.held r reservation path hlookup hpath
  exact ⟨path, rfl, hroot, hheld⟩

variable {path : AgentPath} {a : Action} {r' : ReservationId}

namespace Without

variable {r : ReservationId} {w w' t : World}

theorem start : Without r {} {} := ⟨rfl, rfl, fun _ _ => rfl, fun _ => by rfl, rfl⟩

/-! ### The reservation's own steps -/

/-- What changes is the reservation's slot and placeholder. -/
theorem moved (h : Without r w t)
    (hcount : w'.registry.totalCount + (w.reservations.lookup r).isSome.toNat =
      w.registry.totalCount + (w'.reservations.lookup r).isSome.toNat)
    (hothers : ∀ r', r' ≠ r → w'.reservations.lookup r' = w.reservations.lookup r')
    (htree : ∀ key, w'.agentBut r key = w.agentBut r key) (hreleasing : w'.releasing = w.releasing) : Without r w' t := by
  have hbefore := h.count
  refine ⟨by omega, h.gone, fun r' hr => ?_, fun key => ?_, h.releasing.trans hreleasing.symm⟩
  · rw [h.others r' hr, hothers r' hr]
  · rw [h.tree key, htree key]

theorem reserveSpawnSlot (h : Without r w t) (maxThreads : Option Nat) :
    Without r (step w (.reserveSpawnSlot r maxThreads)) t := by
  unfold step
  dsimp only
  split
  next registry hnone hregistry =>
    obtain rfl := AgentRegistry.reserveSpawnSlot_eq hregistry
    refine h.moved ?_ (fun r' hr => AList.lookup_insert_ne hr) (fun key => ?_) rfl
    · rw [hnone, AList.lookup_insert]
      rfl
    · unfold World.agentBut
      rw [heldKey_of_lookup hnone, heldKey_of_lookup (AList.lookup_insert _)]
      rfl
  next => exact h

theorem reserveAgentPath (h : Without r w t) (hundone : Undone r w (.reserveAgentPath r path)) :
    Without r (step w (.reserveAgentPath r path)) t := by
  unfold step
  dsimp only
  split
  next held registry hlookup hregistry =>
    unfold AgentRegistry.reserveAgentPath at hregistry
    split at hregistry
    next => cases hregistry
    next hvacant =>
      cases hregistry
      have hnone : held = none := hundone rfl hvacant _ hlookup
      subst hnone
      refine h.moved ?_ (fun r' hr => AList.lookup_insert_ne hr) (fun key => ?_) rfl
      · rw [hlookup, AList.lookup_insert]
        rfl
      · unfold World.agentBut
        rw [heldKey_of_lookup hlookup, heldKey_of_lookup (AList.lookup_insert _)]
        by_cases hkey : key = .path path
        · subst hkey
          exact (if_pos rfl).trans hvacant.symm
        · refine (if_neg fun heq => hkey (Option.some.inj heq).symm).trans ?_
          exact AList.lookup_insert_ne hkey
  next => exact h

theorem dropPath (h : Without r w t) (hw : Consistent w) : Without r (step w (.dropPath r)) t := by
  unfold step
  dsimp only
  split
  next path hlookup =>
    obtain ⟨hheld, -⟩ := hw.held r _ path hlookup rfl
    have hrelease : w.registry.releaseReservedAgentPath path =
        { w.registry with agentTree := w.registry.agentTree.erase (.path path) } := by
      unfold AgentRegistry.releaseReservedAgentPath
      rw [hheld]
      rfl
    rw [hrelease]
    refine h.moved ?_ (fun r' hr => AList.lookup_insert_ne hr) (fun key => ?_) rfl
    · rw [hlookup, AList.lookup_insert]
      rfl
    · unfold World.agentBut
      rw [heldKey_of_lookup hlookup, heldKey_of_lookup (AList.lookup_insert _)]
      by_cases hkey : key = .path path
      · subst hkey
        exact (AList.lookup_erase ..).trans (if_pos rfl).symm
      · refine (AList.lookup_erase_ne hkey).trans ?_
        exact (if_neg fun heq => hkey (Option.some.inj heq).symm).symm
  next hlookup =>
    refine h.moved ?_ (fun r' hr => AList.lookup_insert_ne hr) (fun key => ?_) rfl
    · rw [hlookup, AList.lookup_insert]
      rfl
    · unfold World.agentBut
      rw [heldKey_of_lookup hlookup, heldKey_of_lookup (AList.lookup_insert _)]
      rfl
  next => exact h

theorem dropSlot (h : Without r w t) (hw : Consistent w) : Without r (step w (.dropSlot r)) t := by
  unfold step
  dsimp only
  split
  next hlookup =>
    have hpos := hw.pos_of_reserved hlookup
    refine h.moved ?_ (fun r' hr => AList.lookup_erase_ne hr) (fun key => ?_) rfl
    · rw [hlookup, AList.lookup_erase, Consistent.fetchSub_of_pos hpos]
      exact Nat.sub_add_cancel hpos
    · unfold World.agentBut
      rw [heldKey_of_lookup hlookup, heldKey_of_lookup (AList.lookup_erase ..)]
      rfl
  next => exact h

/-- A step of the reservation changes its own slot and placeholder only. -/
theorem own (h : Without r w t) (hw : Consistent w) (ha : a.reservation = some r) (hundone : Undone r w a) :
    Without r (step w a) t := by
  cases a with
  | reserveSpawnSlot r' maxThreads =>
    cases ha
    exact h.reserveSpawnSlot maxThreads
  | reserveAgentPath r' path =>
    cases ha
    exact h.reserveAgentPath hundone
  | commit r' agent => exact absurd (Option.some.inj ha) hundone
  | dropPath r' =>
    cases ha
    exact h.dropPath hw
  | dropSlot r' =>
    cases ha
    exact h.dropSlot hw
  | registerRootThread => cases ha
  | releaseAgent => cases ha
  | releaseSlot => cases ha

/-! ### The others' steps -/

/-- Both worlds change in the same way. -/
theorem both (h : Without r w t) {t'}
    (hcount : w'.registry.totalCount + t.registry.totalCount = t'.registry.totalCount + w.registry.totalCount)
    (hsame : w'.reservations.lookup r = w.reservations.lookup r) (hgone : t'.reservations.lookup r = none)
    (hothers : ∀ r', r' ≠ r → t'.reservations.lookup r' = w'.reservations.lookup r')
    (htree : ∀ key, t'.registry.agentTree.lookup key = w'.agentBut r key) (hreleasing : t'.releasing = w'.releasing) :
    Without r w' t' := by
  refine ⟨?_, hgone, hothers, htree, hreleasing⟩
  have hbefore := h.count
  rw [hsame]
  omega

theorem others_insert (h : Without r w t) (r' : ReservationId) (reservation : SpawnReservation) (r₁ : ReservationId)
    (hr₁ : r₁ ≠ r) : (t.reservations.insert r' reservation).lookup r₁ = (w.reservations.insert r' reservation).lookup r₁ := by
  by_cases heq : r₁ = r'
  · subst heq
    rw [AList.lookup_insert, AList.lookup_insert]
  · rw [AList.lookup_insert_ne heq, AList.lookup_insert_ne heq, h.others r₁ hr₁]

theorem others_erase (h : Without r w t) (r' : ReservationId) (r₁ : ReservationId) (hr₁ : r₁ ≠ r) :
    (t.reservations.erase r').lookup r₁ = (w.reservations.erase r').lookup r₁ := by
  by_cases heq : r₁ = r'
  · subst heq
    rw [AList.lookup_erase, AList.lookup_erase]
  · rw [AList.lookup_erase_ne heq, AList.lookup_erase_ne heq, h.others r₁ hr₁]

/-- An entry beside the placeholder goes into both trees. -/
theorem tree_insert (h : Without r w t) {k} (hk : heldKey w.reservations r ≠ some k) (agent : AgentMetadata)
    (hheld : heldKey w'.reservations r = heldKey w.reservations r)
    (htree : w'.registry.agentTree = w.registry.agentTree.insert k agent) (key : AgentKey) :
    (t.registry.agentTree.insert k agent).lookup key = w'.agentBut r key := by
  unfold World.agentBut
  rw [hheld, htree]
  by_cases heq : key = k
  · subst heq
    rw [AList.lookup_insert, AList.lookup_insert, if_neg hk]
  · rw [AList.lookup_insert_ne heq, AList.lookup_insert_ne heq, h.tree key]
    rfl

theorem tree_erase (h : Without r w t) {k} (hheld : heldKey w'.reservations r = heldKey w.reservations r)
    (htree : w'.registry.agentTree = w.registry.agentTree.erase k) (key : AgentKey) :
    (t.registry.agentTree.erase k).lookup key = w'.agentBut r key := by
  unfold World.agentBut
  rw [hheld, htree]
  by_cases heq : key = k
  · subst heq
    rw [AList.lookup_erase, AList.lookup_erase, ite_self]
  · rw [AList.lookup_erase_ne heq, AList.lookup_erase_ne heq, h.tree key]
    rfl

theorem tree_same (h : Without r w t) (hheld : heldKey w'.reservations r = heldKey w.reservations r)
    (htree : w'.registry.agentTree = w.registry.agentTree) (key : AgentKey) :
    t.registry.agentTree.lookup key = w'.agentBut r key := by
  unfold World.agentBut
  rw [hheld, htree]
  exact h.tree key

theorem vacant (h : Without r w t) {key} (hvacant : w.registry.agentTree.lookup key = none) :
    t.registry.agentTree.lookup key = none := by
  rw [h.tree key]
  unfold World.agentBut
  rw [hvacant, ite_self]

/-- Beside the placeholder both trees have the same. -/
theorem beside (h : Without r w t) {key} (hk : heldKey w.reservations r ≠ some key) :
    t.registry.agentTree.lookup key = w.registry.agentTree.lookup key := by
  rw [h.tree key]
  exact if_neg hk

/-- Another reservation's placeholder is another entry. -/
theorem heldKey_ne (hw : Consistent w) (hr : r' ≠ r) {reservation}
    (hlookup : w.reservations.lookup r' = some reservation) (hpath : reservation.reservedAgentPath = some path) :
    heldKey w.reservations r ≠ some (.path path) := by
  intro hkey
  obtain ⟨reservation', hlookup', hreserved⟩ := Option.bind_eq_some_iff.1 hkey
  obtain ⟨path', hpath', heq⟩ := Option.map_eq_some_iff.1 hreserved
  cases heq
  exact hr (hw.apart r' r _ _ path hlookup hlookup' hpath hpath')

theorem heldKey_insert_ne {m : AList fun _ : ReservationId => SpawnReservation} (hr : r' ≠ r)
    (reservation : SpawnReservation) : heldKey (m.insert r' reservation) r = heldKey m r := by
  unfold heldKey
  rw [AList.lookup_insert_ne (Ne.symm hr)]

theorem heldKey_erase_ne {m : AList fun _ : ReservationId => SpawnReservation} (hr : r' ≠ r) :
    heldKey (m.erase r') r = heldKey m r := by
  unfold heldKey
  rw [AList.lookup_erase_ne (Ne.symm hr)]

theorem reserveSpawnSlot_other (h : Without r w t) (hr : r' ≠ r) {maxThreads}
    (hgranted : refused w (.reserveSpawnSlot r' maxThreads) = false) :
    Without r (step w (.reserveSpawnSlot r' maxThreads)) (step t (.reserveSpawnSlot r' maxThreads)) := by
  have hgrant : ∀ s : AgentRegistry, s.totalCount ≤ w.registry.totalCount →
      s.reserveSpawnSlot maxThreads = .ok { s with totalCount := s.totalCount + 1 } := by
    intro s hle
    cases maxThreads with
    | none => rfl
    | some maxThreads =>
      have hlimit : ¬ maxThreads ≤ w.registry.totalCount := by
        simpa [refused] using hgranted
      exact if_neg (by omega)
  have hcount := h.count
  unfold step
  dsimp only
  rw [hgrant w.registry le_rfl, hgrant t.registry (by omega), h.others r' hr]
  cases w.reservations.lookup r' with
  | some reservation => exact h
  | none =>
    refine h.both ?_ (AList.lookup_insert_ne (Ne.symm hr)) ((AList.lookup_insert_ne (Ne.symm hr)).trans h.gone)
      (h.others_insert r' _) (h.tree_same (heldKey_insert_ne hr _) rfl) h.releasing
    show w.registry.totalCount + 1 + t.registry.totalCount = t.registry.totalCount + 1 + w.registry.totalCount
    omega

theorem reserveAgentPath_other (h : Without r w t) (hw : Consistent w) (hr : r' ≠ r)
    (hgranted : refused w (.reserveAgentPath r' path) = false) :
    Without r (step w (.reserveAgentPath r' path)) (step t (.reserveAgentPath r' path)) := by
  have hvacant : w.registry.agentTree.lookup (.path path) = none :=
    Option.isNone_iff_eq_none.1 (Option.isSome_eq_false_iff.1 hgranted)
  have hgrant : ∀ s : AgentRegistry, s.agentTree.lookup (.path path) = none → s.reserveAgentPath path =
      .ok { s with agentTree := s.agentTree.insert (.path path) { agentPath := some path } } := by
    intro s hnone
    unfold AgentRegistry.reserveAgentPath
    rw [hnone]
  have hk : heldKey w.reservations r ≠ some (.path path) := by
    intro hkey
    obtain ⟨path', -, -, hheld⟩ := hw.lookup_heldKey hkey
    rw [hvacant] at hheld
    cases hheld
  unfold step
  dsimp only
  rw [hgrant _ hvacant, hgrant _ (h.vacant hvacant), h.others r' hr]
  cases w.reservations.lookup r' with
  | none => exact h
  | some reservation =>
    cases reservation with
    | dropping => exact h
    | live held =>
      exact h.both (Nat.add_comm ..) (AList.lookup_insert_ne (Ne.symm hr))
        ((AList.lookup_insert_ne (Ne.symm hr)).trans h.gone) (h.others_insert r' _)
        (h.tree_insert hk _ (heldKey_insert_ne hr _) rfl) h.releasing

theorem commit_other (h : Without r w t) (hw : Consistent w) (hr : r' ≠ r) {agent}
    (hallowed : Allowed w (.commit r' agent)) : Without r (step w (.commit r' agent)) (step t (.commit r' agent)) := by
  obtain ⟨threadId, hid, -, hpath⟩ := hallowed
  unfold step
  dsimp only
  rw [h.others r' hr]
  cases hlookup : w.reservations.lookup r' with
  | none => exact h
  | some reservation =>
    cases reservation with
    | dropping => exact h
    | live held =>
      obtain ⟨key, hregister, hk⟩ : ∃ key, (∀ s : AgentRegistry, s.registerSpawnedThread agent =
          { s with agentTree := s.agentTree.insert key agent }) ∧ heldKey w.reservations r ≠ some key := by
        unfold AgentRegistry.registerSpawnedThread
        rw [hid]
        cases hagent : agent.agentPath with
        | none =>
          refine ⟨.thread threadId, fun _ => rfl, fun hkey => ?_⟩
          obtain ⟨path, hne, -, -⟩ := hw.lookup_heldKey hkey
          cases hne
        | some path =>
          refine ⟨.path path, fun _ => rfl, heldKey_ne hw hr hlookup ?_⟩
          rcases hpath with hnone | ⟨reservation', hlookup', hsame⟩
          · rw [hagent] at hnone
            cases hnone
          · rw [hlookup] at hlookup'
            cases hlookup'
            exact hsame.symm.trans hagent
      rw [hregister, hregister]
      exact h.both (Nat.add_comm ..) (AList.lookup_erase_ne (Ne.symm hr))
        ((AList.lookup_erase_ne (Ne.symm hr)).trans h.gone) (h.others_erase r')
        (h.tree_insert hk _ (heldKey_erase_ne hr) rfl) h.releasing

theorem dropPath_other (h : Without r w t) (hw : Consistent w) (hr : r' ≠ r) :
    Without r (step w (.dropPath r')) (step t (.dropPath r')) := by
  unfold step
  dsimp only
  rw [h.others r' hr]
  cases hlookup : w.reservations.lookup r' with
  | none => exact h
  | some reservation =>
    cases reservation with
    | dropping => exact h
    | live held =>
      cases held with
      | none =>
        exact h.both (Nat.add_comm ..) (AList.lookup_insert_ne (Ne.symm hr))
          ((AList.lookup_insert_ne (Ne.symm hr)).trans h.gone) (h.others_insert r' _)
          (h.tree_same (heldKey_insert_ne hr _) rfl) h.releasing
      | some path =>
        obtain ⟨hheld, -⟩ := hw.held r' _ path hlookup rfl
        have hk := heldKey_ne hw hr hlookup rfl
        have hrelease : ∀ s : AgentRegistry, s.agentTree.lookup (.path path) = some { agentPath := some path } →
            s.releaseReservedAgentPath path = { s with agentTree := s.agentTree.erase (.path path) } := by
          intro s hthere
          unfold AgentRegistry.releaseReservedAgentPath
          rw [hthere]
          rfl
        dsimp only
        rw [hrelease _ hheld, hrelease _ ((h.beside hk).trans hheld)]
        exact h.both (Nat.add_comm ..) (AList.lookup_insert_ne (Ne.symm hr))
          ((AList.lookup_insert_ne (Ne.symm hr)).trans h.gone) (h.others_insert r' _)
          (h.tree_erase (heldKey_insert_ne hr _) rfl) h.releasing

/-- A count that both worlds take one off. -/
theorem both_fetchSub (h : Without r w t) (hmore : (w.reservations.lookup r).isSome.toNat < w.registry.totalCount) :
    fetchSub w.registry.totalCount + t.registry.totalCount = fetchSub t.registry.totalCount + w.registry.totalCount := by
  have hcount := h.count
  rw [Consistent.fetchSub_of_pos (by omega), Consistent.fetchSub_of_pos (by omega)]
  omega

theorem dropSlot_other (h : Without r w t) (hw : Consistent w) (hr : r' ≠ r) :
    Without r (step w (.dropSlot r')) (step t (.dropSlot r')) := by
  unfold step
  dsimp only
  rw [h.others r' hr]
  cases hlookup : w.reservations.lookup r' with
  | none => exact h
  | some reservation =>
    cases reservation with
    | live held => exact h
    | dropping =>
      have hmore : (w.reservations.lookup r).isSome.toNat < w.registry.totalCount := by
        have hlength := length_erase (Option.isSome_of_eq_some hlookup)
        have hcount := hw.count
        cases hthere : w.reservations.lookup r with
        | none =>
          show 0 < _
          omega
        | some reservation =>
          have hthere' : ((w.reservations.erase r').lookup r).isSome := by
            rw [AList.lookup_erase_ne (Ne.symm hr), hthere]
            rfl
          have hlength' := length_erase hthere'
          show 1 < _
          omega
      exact h.both (h.both_fetchSub hmore) (AList.lookup_erase_ne (Ne.symm hr))
        ((AList.lookup_erase_ne (Ne.symm hr)).trans h.gone) (h.others_erase r')
        (h.tree_same (heldKey_erase_ne hr) rfl) h.releasing

theorem registerRootThread_other (h : Without r w t) (hw : Consistent w) (threadId : ThreadId) :
    Without r (step w (.registerRootThread threadId)) (step t (.registerRootThread threadId)) := by
  have hk : heldKey w.reservations r ≠ some (.path rootPath) := by
    intro hkey
    obtain ⟨path, heq, hroot, -⟩ := hw.lookup_heldKey hkey
    exact hroot (AgentKey.path.inj heq).symm
  unfold step AgentRegistry.registerRootThread
  rw [h.beside hk]
  cases w.registry.agentTree.lookup (.path rootPath) with
  | some agent => exact h
  | none => exact h.both (Nat.add_comm ..) rfl h.gone h.others (h.tree_insert hk _ rfl rfl) h.releasing

theorem releaseAgent_other (h : Without r w t) (hw : Consistent w) (threadId : ThreadId) (key : AgentKey) :
    Without r (step w (.releaseAgent threadId key)) (step t (.releaseAgent threadId key)) := by
  unfold step AgentRegistry.removeThread
  dsimp only
  by_cases hk : heldKey w.reservations r = some key
  · -- the placeholder has no thread
    obtain ⟨path, -, -, hheld⟩ := hw.lookup_heldKey hk
    have hnone : t.registry.agentTree.lookup key = none := by
      rw [h.tree key]
      exact if_pos hk
    rw [hheld, hnone]
    exact ⟨h.count, h.gone, h.others, h.tree, congrArg (· + 0) h.releasing⟩
  · rw [h.beside hk]
    cases w.registry.agentTree.lookup key with
    | none => exact ⟨h.count, h.gone, h.others, h.tree, congrArg (· + 0) h.releasing⟩
    | some agent =>
      by_cases hid : agent.agentId = some threadId
      · dsimp only
        rw [if_pos hid, if_pos hid]
        exact h.both (Nat.add_comm ..) rfl h.gone h.others (h.tree_erase rfl rfl)
          (congrArg (· + (!agent.isRoot).toNat) h.releasing)
      · dsimp only
        rw [if_neg hid, if_neg hid]
        exact ⟨h.count, h.gone, h.others, h.tree, congrArg (· + 0) h.releasing⟩

theorem releaseSlot_other (h : Without r w t) (hw : Consistent w) : Without r (step w .releaseSlot) (step t .releaseSlot) := by
  unfold step
  rw [h.releasing]
  by_cases hreleasing : w.releasing = 0
  · rw [if_pos hreleasing, if_pos hreleasing]
    exact h
  · rw [if_neg hreleasing, if_neg hreleasing]
    have hmore : (w.reservations.lookup r).isSome.toNat < w.registry.totalCount := by
      have hcount := hw.count
      cases hthere : w.reservations.lookup r with
      | none =>
        show 0 < _
        omega
      | some reservation =>
        have hlength := length_erase (Option.isSome_of_eq_some hthere)
        show 1 < _
        omega
    exact h.both (h.both_fetchSub hmore) rfl h.gone h.others (h.tree_same rfl rfl) rfl

/-- A step of another task that is not refused does the same in both worlds. -/
theorem other (h : Without r w t) (hw : Consistent w) (hallowed : Allowed w a) (ha : a.reservation ≠ some r)
    (hgranted : refused w a = false) : Without r (step w a) (step t a) := by
  have hne : ∀ {r'}, a.reservation = some r' → r' ≠ r := fun hr heq => ha (heq ▸ hr)
  cases a with
  | reserveSpawnSlot r' maxThreads => exact h.reserveSpawnSlot_other (hne rfl) hgranted
  | reserveAgentPath r' path => exact h.reserveAgentPath_other hw (hne rfl) hgranted
  | commit r' agent => exact h.commit_other hw (hne rfl) hallowed
  | dropPath r' => exact h.dropPath_other hw (hne rfl)
  | dropSlot r' => exact h.dropSlot_other hw (hne rfl)
  | registerRootThread threadId => exact h.registerRootThread_other hw threadId
  | releaseAgent threadId key => exact h.releaseAgent_other hw threadId key
  | releaseSlot => exact h.releaseSlot_other hw

/-- A call that is refused changes nothing. -/
theorem step_of_refused (h : refused w a = true) : step w a = w := by
  cases a with
  | reserveSpawnSlot r' maxThreads =>
    cases maxThreads with
    | none => cases h
    | some maxThreads =>
      have hlimit : maxThreads ≤ w.registry.totalCount := by simpa [refused] using h
      have hrefuse : w.registry.reserveSpawnSlot (some maxThreads) = .error (.agentLimitReached maxThreads) := if_pos hlimit
      unfold step
      dsimp only
      rw [hrefuse]
      cases w.reservations.lookup r' <;> rfl
  | reserveAgentPath r' path =>
    obtain ⟨agent, hagent⟩ := Option.isSome_iff_exists.1 h
    unfold step AgentRegistry.reserveAgentPath
    dsimp only
    rw [hagent]
    cases w.reservations.lookup r' with
    | none => rfl
    | some reservation => cases reservation <;> rfl
  | commit => cases h
  | dropPath => cases h
  | dropSlot => cases h
  | registerRootThread => cases h
  | releaseAgent => cases h
  | releaseSlot => cases h

theorem run (h : Without r w t) (hw : Consistent w) {actions}
    (halong : Along step (fun w a => Allowed w a ∧ Undone r w a) w actions) :
    Without r (run step w actions) (run step t (Agents.others r w actions)) := by
  induction actions generalizing w t with
  | nil => exact h
  | cons a actions ih =>
    obtain ⟨⟨hallowed, hundone⟩, halong⟩ := halong
    have hw' := hw.step a hallowed
    unfold Agents.others
    by_cases ha : a.reservation = some r
    · rw [if_pos (.inl ha)]
      exact ih (h.own hw ha hundone) hw' halong
    · cases hrefused : refused w a with
      | true =>
        rw [if_pos (.inr rfl)]
        refine ih ?_ hw' halong
        rw [step_of_refused hrefused]
        exact h
      | false =>
        rw [if_neg (by simp [ha])]
        exact ih (h.other hw hallowed ha hrefused) hw' halong

end Without

/-! ## All runs -/

theorem totalCount_step {w} (h : Consistent w) (a : Action) :
    (step w a).registry.totalCount ≤ w.registry.totalCount ∨
      ∃ r maxThreads, a = .reserveSpawnSlot r maxThreads ∧ refused w a = false ∧
        (step w a).registry.totalCount = w.registry.totalCount + 1 := by
  cases a with
  | reserveSpawnSlot r maxThreads =>
    cases hrefused : refused w (.reserveSpawnSlot r maxThreads) with
    | true =>
      rw [Without.step_of_refused hrefused]
      exact .inl le_rfl
    | false =>
      unfold step
      dsimp only
      split
      next registry hnone hregistry =>
        refine .inr ⟨r, maxThreads, rfl, rfl, ?_⟩
        unfold AgentRegistry.reserveSpawnSlot at hregistry
        split at hregistry
        next =>
          split at hregistry
          next => cases hregistry
          next => cases hregistry; rfl
        next => cases hregistry; rfl
      next => exact .inl le_rfl
  | reserveAgentPath r path =>
    unfold step AgentRegistry.reserveAgentPath
    dsimp only
    cases w.registry.agentTree.lookup (.path path) <;> cases w.reservations.lookup r with
    | none => exact .inl le_rfl
    | some reservation => cases reservation <;> exact .inl le_rfl
  | commit r agent =>
    unfold step AgentRegistry.registerSpawnedThread
    dsimp only
    split
    next => cases agent.agentId <;> exact .inl le_rfl
    next => exact .inl le_rfl
  | dropPath r =>
    unfold step AgentRegistry.releaseReservedAgentPath
    dsimp only
    split
    next path hlookup =>
      left
      split
      next => split <;> exact le_rfl
      next => exact le_rfl
    next => exact .inl le_rfl
    next => exact .inl le_rfl
  | dropSlot r =>
    unfold step
    dsimp only
    split
    next hlookup =>
      left
      rw [Consistent.fetchSub_of_pos (h.pos_of_reserved hlookup)]
      exact Nat.sub_le ..
    next => exact .inl le_rfl
  | registerRootThread threadId =>
    unfold step AgentRegistry.registerRootThread
    dsimp only
    split <;> exact .inl le_rfl
  | releaseAgent threadId key =>
    unfold step AgentRegistry.removeThread
    dsimp only
    split
    next => split <;> exact .inl le_rfl
    next => exact .inl le_rfl
  | releaseSlot =>
    unfold step
    dsimp only
    split
    next => exact .inl le_rfl
    next hreleasing =>
      left
      rw [Consistent.fetchSub_of_pos (h.pos_of_releasing hreleasing)]
      exact Nat.sub_le ..

theorem totalCount_le {limit : Nat} {w} (h : Consistent w) (hle : w.registry.totalCount ≤ limit)
    {actions} (halong : Along step Allowed w actions)
    (hlimit : ∀ r maxThreads, .reserveSpawnSlot r maxThreads ∈ actions → maxThreads = some limit) :
    (run step w actions).registry.totalCount ≤ limit := by
  induction actions generalizing w with
  | nil => exact hle
  | cons a actions ih =>
    refine ih (h.step a halong.1) ?_ halong.2 fun r maxThreads hin => hlimit r maxThreads (List.mem_cons_of_mem _ hin)
    rcases totalCount_step h a with hless | ⟨r, maxThreads, rfl, hgranted, hmore⟩
    · exact Nat.le_trans hless hle
    · cases hlimit r maxThreads List.mem_cons_self
      have hroom : ¬ limit ≤ w.registry.totalCount := by simpa [refused] using hgranted
      omega

theorem paths_sublist_keys {entries : List (Sigma fun _ : AgentKey => AgentMetadata)}
    (h : ∀ entry ∈ entries, Keyed entry.1 entry.2) (p : AgentMetadata → Bool) :
    ((((entries.map Sigma.snd).filter p).filterMap AgentMetadata.agentPath).map AgentKey.path).Sublist entries.keys := by
  induction entries with
  | nil => exact List.Sublist.slnil
  | cons entry entries ih =>
    have hrest := ih fun entry' hin => h entry' (List.mem_cons_of_mem _ hin)
    rw [List.map_cons, List.filter_cons, List.keys_cons]
    split
    next =>
      cases hpath : entry.2.agentPath with
      | none =>
        rw [List.filterMap_cons_none hpath]
        exact hrest.cons _
      | some path =>
        rw [List.filterMap_cons_some hpath, List.map_cons]
        rcases h entry List.mem_cons_self with ⟨path', hpath', hkey⟩ | ⟨hnone, -⟩
        · rw [hpath] at hpath'
          cases hpath'
          rw [hkey]
          exact hrest.cons_cons _
        · rw [hpath] at hnone
          cases hnone
    next => exact hrest.cons _

theorem Consistent.nodup_paths {w} (h : Consistent w) :
    (w.registry.liveAgents.filterMap AgentMetadata.agentPath).Nodup := by
  have hkeyed : ∀ entry ∈ w.registry.agentTree.entries, Keyed entry.1 entry.2 :=
    fun entry hin => h.keyed entry.1 entry.2 (AList.mem_lookup_iff.2 hin)
  exact List.Nodup.of_map AgentKey.path (w.registry.agentTree.keys_nodup.sublist (paths_sublist_keys hkeyed _))

/-- The steps that take one off the count. -/
def Subtracts (w : World) : Action → Prop
  | .dropSlot r => ∃ reservation, w.reservations.lookup r = some reservation
  | .releaseSlot => w.releasing ≠ 0
  | .reserveSpawnSlot .. | .reserveAgentPath .. | .commit .. | .dropPath _ | .registerRootThread _ | .releaseAgent .. => False

/-- **In every run that keeps to what is allowed, the count is that of the reservations, the agents and
the releases under way, and a reservation that is dropped leaves the registry of the run without it.** -/
theorem slots_counted (actions : List Action) (hallowed : Along step Allowed {} actions) :
    let w := run step {} actions
    w.registry.totalCount = w.reservations.entries.length + w.registry.liveAgents.length + w.releasing ∧
    (∀ a, Subtracts w a → 0 < w.registry.totalCount) ∧
    (∀ limit, (∀ r maxThreads, .reserveSpawnSlot r maxThreads ∈ actions → maxThreads = some limit) →
      w.registry.totalCount ≤ limit) ∧
    (w.registry.liveAgents.filterMap AgentMetadata.agentPath).Nodup ∧
    ∀ r, Along step (Undone r) {} actions → w.reservations.lookup r = none →
      (run step {} (others r {} actions)).registry.totalCount = w.registry.totalCount ∧
      ∀ key, (run step {} (others r {} actions)).registry.agentTree.lookup key = w.registry.agentTree.lookup key := by
  intro w
  have h : Consistent w := along_invariant (fun _ a h hallowed => h.step a hallowed) Consistent.start hallowed
  refine ⟨?_, ?_, fun limit hlimit => ?_, h.nodup_paths, fun r hundone hgone => ?_⟩
  · rw [w.registry.length_liveAgents]
    exact h.count
  · intro a hsubtracts
    cases a with
    | dropSlot r =>
      obtain ⟨reservation, hlookup⟩ := hsubtracts
      exact h.pos_of_reserved hlookup
    | releaseSlot => exact h.pos_of_releasing hsubtracts
    | reserveSpawnSlot => cases hsubtracts
    | reserveAgentPath => cases hsubtracts
    | commit => cases hsubtracts
    | dropPath => cases hsubtracts
    | registerRootThread => cases hsubtracts
    | releaseAgent => cases hsubtracts
  · exact totalCount_le Consistent.start (Nat.zero_le _) hallowed hlimit
  · have hwithout := (Without.start (r := r)).run Consistent.start (along_and hallowed hundone)
    have hcount : w.registry.totalCount = _ := hwithout.count
    rw [hgone] at hcount
    refine ⟨hcount.symm, fun key => ?_⟩
    rw [hwithout.tree key]
    unfold World.agentBut
    rw [heldKey_of_lookup hgone]
    exact if_neg nofun

/-! ## Examples -/

def childPath : AgentPath := "/root/a".toList

/-- One reservation becomes an agent, one that is refused its path is dropped, and the agent is released. -/
def sampleActions : List Action :=
  [.registerRootThread 0, .reserveSpawnSlot 0 (some 2), .reserveSpawnSlot 1 (some 2), .reserveAgentPath 0 childPath,
    .reserveAgentPath 1 childPath, .commit 0 { agentId := some 1, agentPath := some childPath }, .dropPath 1, .dropSlot 1,
    .releaseAgent 1 (.path childPath), .releaseSlot]

theorem sampleActions_allowed : Along step Allowed {} sampleActions := by
  have hfresh : ∀ key agent, (run step {} (sampleActions.take 5)).registry.agentTree.lookup key = some agent →
      agent.agentId ≠ some 1 := by
    intro key agent hagent
    have hin := AList.mem_lookup_iff.1 hagent
    have hall : ∀ entry ∈ (run step {} (sampleActions.take 5)).registry.agentTree.entries, entry.2.agentId ≠ some 1 :=
      List.forall_iff_forall_mem.1 ⟨by decide, by decide⟩
    exact hall _ hin
  have hpath : childPath ≠ rootPath := by decide
  exact ⟨trivial, trivial, trivial, hpath, hpath, ⟨1, rfl, hfresh, .inr ⟨.live (some childPath), rfl, rfl⟩⟩,
    trivial, trivial, trivial, trivial, trivial⟩

theorem slots_counted_sample : (run step {} sampleActions).registry.totalCount = 0 ∧
    (run step {} sampleActions).registry.totalCount ≤ 2 ∧
    (run step {} (others 1 {} sampleActions)).registry.totalCount = 0 := by
  obtain ⟨hcount, -, hlimit, -, hdropped⟩ := slots_counted sampleActions sampleActions_allowed
  refine ⟨hcount, hlimit 2 ?_, (hdropped 1 ?_ rfl).1.trans hcount⟩
  · intro r maxThreads hin
    simp [sampleActions] at hin
    exact hin.elim And.right And.right
  · have hother : (0 : ReservationId) ≠ 1 := by decide
    have htaken : (run step {} (sampleActions.take 4)).registry.agentTree.lookup (.path childPath) ≠ none := by decide
    exact ⟨trivial, trivial, trivial, fun heq => absurd heq hother, fun _ hvacant => absurd hvacant htaken, hother,
      trivial, trivial, trivial, trivial, trivial⟩

/-- A reservation of the root's own path becomes an agent that counts and is not counted. -/
def rootActions : List Action :=
  [.reserveSpawnSlot 0 none, .reserveAgentPath 0 rootPath, .commit 0 { agentId := some 1, agentPath := some rootPath }]

/-- The first of two paths stays when the reservation is dropped. -/
def twoPathActions : List Action :=
  [.reserveSpawnSlot 0 none, .reserveAgentPath 0 childPath, .reserveAgentPath 0 "/root/b".toList, .dropPath 0, .dropSlot 0]

theorem root_and_second_path_uncounted :
    (run step {} rootActions).registry.totalCount ≠ (run step {} rootActions).reservations.entries.length +
      (run step {} rootActions).registry.liveAgents.length + (run step {} rootActions).releasing ∧
    (run step {} twoPathActions).reservations.lookup 0 = none ∧ others 0 {} twoPathActions = [] ∧
      (run step {} twoPathActions).registry.agentTree.lookup (.path childPath) = some { agentPath := some childPath } ∧
      (run step {} []).registry.agentTree.lookup (.path childPath) = none :=
  ⟨by decide, by decide, by decide, by decide, rfl⟩

end Codex.Agents
