/-
The slots of agents are counted exactly, in every order of the tasks' steps
(`slots_counted`), as long as no reservation is made for the root's own path.

Each step keeps `Consistent`: the count, the keys of the tree, and that a reservation's
placeholder is its own.
-/
import Codex.AgentRegistry

namespace Codex.Agents

open Runs FiniteMaps

/-! ## Live agents -/

/-- What counts as an agent: it has a thread, and is not the root. -/
def AgentMetadata.counted (agent : AgentMetadata) : Bool := agent.agentId.isSome && !agent.isRoot

def AgentRegistry.registered (s : AgentRegistry) : Nat := tally (fun _ agent => agent.counted.toNat) s.agentTree

theorem AgentRegistry.length_liveAgents (s : AgentRegistry) : s.liveAgents.length = s.registered := by
  show ((s.agentTree.entries.map Sigma.snd).filter AgentMetadata.counted).length =
    (s.agentTree.entries.map fun entry => entry.2.counted.toNat).sum
  induction s.agentTree.entries with
  | nil => rfl
  | cons entry entries ih =>
    rw [List.map_cons, List.filter_cons, List.map_cons, List.sum_cons, ← ih]
    cases hcounted : entry.2.counted with
    | true =>
      exact Nat.add_comm ..
    | false =>
      exact (Nat.zero_add _).symm

/-! ## What every step keeps -/

/-- An entry's key is its path, or its thread where it has none. -/
def Keyed (key : AgentKey) (agent : AgentMetadata) : Prop :=
  (∃ path, agent.agentPath = some path ∧ key = .path path) ∨
    (agent.agentPath = none ∧ ∃ threadId, agent.agentId = some threadId ∧ key = .thread threadId)

structure Consistent (w : World) : Prop where
  count : w.registry.totalCount = w.reservations.entries.length + w.registry.registered + w.releasing
  keyed : ∀ key agent, w.registry.agentTree.lookup key = some agent → Keyed key agent
  held : ∀ r reservation path, w.reservations.lookup r = some reservation → reservation.reservedAgentPath = some path →
    w.registry.agentTree.lookup (.path path) = some { agentPath := some path } ∧ path ≠ rootPath
  apart : ∀ r r' reservation reservation' path, w.reservations.lookup r = some reservation →
    w.reservations.lookup r' = some reservation' → reservation.reservedAgentPath = some path →
    reservation'.reservedAgentPath = some path → r = r'

/-- What the callers keep to: no path reserved is the root's, and a commit brings a thread that is
not in the tree, under the reservation's own path or none. -/
def Allowed (w : World) : Action → Prop
  | .reserveAgentPath _ path => path ≠ rootPath
  | .commit r agent => ∃ threadId, agent.agentId = some threadId ∧
      (∀ key agent', w.registry.agentTree.lookup key = some agent' → agent'.agentId ≠ some threadId) ∧
      (agent.agentPath = none ∨
        ∃ reservation, w.reservations.lookup r = some reservation ∧ agent.agentPath = reservation.reservedAgentPath)
  | .reserveSpawnSlot .. | .dropPath _ | .dropSlot _ | .registerRootThread _ | .releaseAgent .. | .releaseSlot => True

variable {r r' : ReservationId} {reservation : SpawnReservation}

theorem length_insert_new {m : AList fun _ : ReservationId => SpawnReservation} (h : m.lookup r = none)
    (reservation : SpawnReservation) : (m.insert r reservation).entries.length = m.entries.length + 1 := by
  rw [AList.entries_insert_of_notMem (AList.lookup_eq_none.1 h), List.length_cons]

theorem length_insert_old {m : AList fun _ : ReservationId => SpawnReservation} {old}
    (h : m.lookup r = some old) (reservation : SpawnReservation) :
    (m.insert r reservation).entries.length = m.entries.length := by
  exact length_erase (Option.isSome_of_eq_some h)

theorem lookup_insert_cases {m : AList fun _ : ReservationId => SpawnReservation}
    {new} (h : (m.insert r new).lookup r' = some reservation) :
    (r' = r ∧ reservation = new) ∨ (r' ≠ r ∧ m.lookup r' = some reservation) := by
  by_cases hr : r' = r
  · subst hr
    rw [AList.lookup_insert] at h
    exact .inl ⟨rfl, (Option.some.inj h).symm⟩
  · rw [AList.lookup_insert_ne hr] at h
    exact .inr ⟨hr, h⟩

theorem lookup_of_erase {m : AList fun _ : ReservationId => SpawnReservation}
    (h : (m.erase r).lookup r' = some reservation) :
    r' ≠ r ∧ m.lookup r' = some reservation := by
  have hr : r' ≠ r := by
    rintro rfl
    rw [AList.lookup_erase] at h
    cases h
  rw [AList.lookup_erase_ne hr] at h
  exact ⟨hr, h⟩

theorem AgentRegistry.reserveSpawnSlot_eq {registry registry' : AgentRegistry} {maxThreads}
    (h : registry.reserveSpawnSlot maxThreads = .ok registry') :
    registry' = { registry with totalCount := registry.totalCount + 1 } := by
  unfold reserveSpawnSlot at h
  split at h
  next =>
    split at h
    next => cases h
    next => cases h; rfl
  next => cases h; rfl

namespace Consistent

variable {w : World}

theorem reserveSpawnSlot (h : Consistent w) (r : ReservationId) (maxThreads : Option Nat) :
    Consistent (step w (.reserveSpawnSlot r maxThreads)) := by
  unfold step
  dsimp only
  split
  next registry hnone hregistry =>
    obtain rfl := AgentRegistry.reserveSpawnSlot_eq hregistry
    have hreserved := h.count
    refine ⟨?_, h.keyed, ?_, ?_⟩
    · show w.registry.totalCount + 1 = (w.reservations.insert r (.live none)).entries.length + w.registry.registered + w.releasing
      rw [length_insert_new hnone]
      omega
    · intro r' reservation path hlookup hpath
      rcases lookup_insert_cases hlookup with ⟨-, rfl⟩ | ⟨-, hlookup⟩
      · cases hpath
      · exact h.held r' reservation path hlookup hpath
    · intro r₁ r₂ reservation₁ reservation₂ path h₁ h₂ hpath₁ hpath₂
      rcases lookup_insert_cases h₁ with ⟨-, rfl⟩ | ⟨-, h₁⟩
      · cases hpath₁
      rcases lookup_insert_cases h₂ with ⟨-, rfl⟩ | ⟨-, h₂⟩
      · cases hpath₂
      exact h.apart r₁ r₂ _ _ path h₁ h₂ hpath₁ hpath₂
  next => exact h

/-- A placeholder where there was nothing. -/
theorem reserveAgentPath (h : Consistent w) (r : ReservationId) {path} (hroot : path ≠ rootPath) :
    Consistent (step w (.reserveAgentPath r path)) := by
  unfold step
  dsimp only
  split
  next held registry hlookup hregistry =>
    unfold AgentRegistry.reserveAgentPath at hregistry
    split at hregistry
    next => cases hregistry
    next hvacant =>
      cases hregistry
      refine ⟨?_, ?_, ?_, ?_⟩
      · have hcount := h.count
        have htally := tally_insert_new (f := fun _ agent => agent.counted.toNat) hvacant { agentPath := some path }
        have hnot : (({ agentPath := some path } : AgentMetadata).counted.toNat) = 0 := rfl
        show w.registry.totalCount = (w.reservations.insert r _).entries.length + tally _ _ + w.releasing
        rw [length_insert_old hlookup, htally, hnot, Nat.zero_add]
        exact hcount
      · intro key agent hkey
        by_cases heq : key = .path path
        · subst heq
          rw [AList.lookup_insert] at hkey
          cases hkey
          exact .inl ⟨path, rfl, rfl⟩
        · rw [AList.lookup_insert_ne heq] at hkey
          exact h.keyed key agent hkey
      · intro r' reservation' path' hlookup' hpath'
        rcases lookup_insert_cases hlookup' with ⟨-, rfl⟩ | ⟨-, hlookup'⟩
        · cases hpath'
          exact ⟨AList.lookup_insert _, hroot⟩
        · obtain ⟨hheld, hroot'⟩ := h.held r' reservation' path' hlookup' hpath'
          have hne : AgentKey.path path' ≠ .path path := by
            intro heq
            rw [heq, hvacant] at hheld
            cases hheld
          exact ⟨(AList.lookup_insert_ne hne).trans hheld, hroot'⟩
      · have hother : ∀ r' reservation', w.reservations.lookup r' = some reservation' →
            reservation'.reservedAgentPath ≠ some path := by
          intro r' reservation' hlookup' hpath'
          have hheld := (h.held r' reservation' path hlookup' hpath').1
          rw [hvacant] at hheld
          cases hheld
        intro r₁ r₂ reservation₁ reservation₂ path' h₁ h₂ hpath₁ hpath₂
        rcases lookup_insert_cases h₁ with ⟨heq₁, rfl⟩ | ⟨-, hold₁⟩ <;>
          rcases lookup_insert_cases h₂ with ⟨heq₂, rfl⟩ | ⟨-, hold₂⟩
        · rw [heq₁, heq₂]
        · cases hpath₁
          exact absurd hpath₂ (hother r₂ _ hold₂)
        · cases hpath₂
          exact absurd hpath₁ (hother r₁ _ hold₁)
        · exact h.apart r₁ r₂ _ _ path' hold₁ hold₂ hpath₁ hpath₂
  next => exact h

/-- The placeholder, or a new entry, becomes a counted agent in place of the reservation. -/
theorem commit (h : Consistent w) (r : ReservationId) {agent} (hallowed : Allowed w (.commit r agent)) :
    Consistent (step w (.commit r agent)) := by
  obtain ⟨threadId, hid, hfresh, hpath⟩ := hallowed
  unfold step
  dsimp only
  split
  next held hlookup =>
    -- the key the agent goes to, which holds its own placeholder or nothing
    obtain ⟨key, hregistry, hkeyed, hkey⟩ : ∃ key, w.registry.registerSpawnedThread agent =
          { w.registry with agentTree := w.registry.agentTree.insert key agent } ∧ Keyed key agent ∧
        ((∃ path, held = some path ∧ agent.agentPath = some path ∧ key = .path path) ∨
          w.registry.agentTree.lookup key = none ∧ agent.agentPath = none) := by
      unfold AgentRegistry.registerSpawnedThread
      rw [hid]
      cases hagent : agent.agentPath with
      | none =>
        refine ⟨.thread threadId, rfl, .inr ⟨hagent, threadId, hid, rfl⟩, .inr ⟨?_, rfl⟩⟩
        cases hthere : w.registry.agentTree.lookup (.thread threadId) with
        | none => rfl
        | some agent' =>
          rcases h.keyed _ _ hthere with ⟨path, -, hkey⟩ | ⟨-, threadId', hid', hkey⟩
          · cases hkey
          · cases hkey
            exact absurd hid' (hfresh _ _ hthere)
      | some path =>
        refine ⟨.path path, rfl, .inl ⟨path, hagent, rfl⟩, .inl ⟨path, ?_, rfl, rfl⟩⟩
        rcases hpath with hnone | ⟨reservation', hlookup', hsame⟩
        · rw [hagent] at hnone
          cases hnone
        · rw [hlookup] at hlookup'
          cases hlookup'
          exact hsame.symm.trans hagent
    have hnotRoot : agent.isRoot = false := by
      unfold AgentMetadata.isRoot
      rcases hkey with ⟨path, hreserved, hagent, -⟩ | ⟨-, hagent⟩
      · rw [hagent]
        exact beq_false_of_ne fun heq => (h.held r (.live held) path hlookup hreserved).2 (Option.some.inj heq)
      · rw [hagent]
        rfl
    have hcounted : agent.counted.toNat = 1 := by
      unfold AgentMetadata.counted
      rw [hid, hnotRoot]
      rfl
    have htally : tally (fun _ agent => agent.counted.toNat) (w.registry.agentTree.insert key agent) =
        w.registry.registered + 1 := by
      rcases hkey with ⟨path, hreserved, -, rfl⟩ | ⟨hvacant, -⟩
      · have hold := tally_insert_old (f := fun _ agent => agent.counted.toNat)
          (h.held r (.live held) path hlookup hreserved).1 agent
        have hnone : (({ agentPath := some path } : AgentMetadata).counted.toNat) = 0 := rfl
        show _ = tally _ _ + 1
        omega
      · rw [tally_insert_new hvacant, hcounted, Nat.add_comm]
        rfl
    have hlength := length_erase (Option.isSome_of_eq_some hlookup)
    have hcount := h.count
    rw [hregistry]
    -- another reservation's placeholder is not the one that is replaced
    have hother : ∀ r' reservation' path, r' ≠ r → w.reservations.lookup r' = some reservation' →
        reservation'.reservedAgentPath = some path → AgentKey.path path ≠ key := by
      intro r' reservation' path hr hlookup' hpath' heq
      rcases hkey with ⟨path', hreserved, -, rfl⟩ | ⟨hvacant, -⟩
      · cases heq
        exact hr (h.apart r' r _ _ path hlookup' hlookup hpath' hreserved)
      · rw [← heq, (h.held r' reservation' path hlookup' hpath').1] at hvacant
        cases hvacant
    refine ⟨?_, ?_, ?_, ?_⟩
    · show w.registry.totalCount = (w.reservations.erase r).entries.length + tally _ _ + w.releasing
      rw [htally]
      omega
    · intro key' agent' hkey'
      by_cases heq : key' = key
      · subst heq
        rw [AList.lookup_insert] at hkey'
        cases hkey'
        exact hkeyed
      · rw [AList.lookup_insert_ne heq] at hkey'
        exact h.keyed key' agent' hkey'
    · intro r' reservation' path hlookup' hpath'
      obtain ⟨hr, hlookup'⟩ := lookup_of_erase hlookup'
      obtain ⟨hheld, hroot⟩ := h.held r' reservation' path hlookup' hpath'
      exact ⟨(AList.lookup_insert_ne (hother r' reservation' path hr hlookup' hpath')).trans hheld, hroot⟩
    · intro r₁ r₂ reservation₁ reservation₂ path h₁ h₂ hpath₁ hpath₂
      exact h.apart r₁ r₂ _ _ path (lookup_of_erase h₁).2 (lookup_of_erase h₂).2 hpath₁ hpath₂
  next => exact h

theorem held_of_insert_dropping {m : AList fun _ : ReservationId => SpawnReservation}
    {path} (hlookup : (m.insert r .dropping).lookup r' = some reservation)
    (hpath : reservation.reservedAgentPath = some path) : r' ≠ r ∧ m.lookup r' = some reservation := by
  rcases lookup_insert_cases hlookup with ⟨-, rfl⟩ | hold
  · cases hpath
  · exact hold

/-- The placeholder goes. -/
theorem dropPath (h : Consistent w) (r : ReservationId) : Consistent (step w (.dropPath r)) := by
  have hapart : ∀ r₁ r₂ reservation₁ reservation₂ path,
      (w.reservations.insert r .dropping).lookup r₁ = some reservation₁ →
      (w.reservations.insert r .dropping).lookup r₂ = some reservation₂ →
      reservation₁.reservedAgentPath = some path → reservation₂.reservedAgentPath = some path → r₁ = r₂ :=
    fun r₁ r₂ _ _ path h₁ h₂ hpath₁ hpath₂ => h.apart r₁ r₂ _ _ path (held_of_insert_dropping h₁ hpath₁).2
      (held_of_insert_dropping h₂ hpath₂).2 hpath₁ hpath₂
  have hcount := h.count
  unfold step
  dsimp only
  split
  next path hlookup =>
    obtain ⟨hheld, -⟩ := h.held r _ path hlookup rfl
    have hrelease : w.registry.releaseReservedAgentPath path =
        { w.registry with agentTree := w.registry.agentTree.erase (.path path) } := by
      unfold AgentRegistry.releaseReservedAgentPath
      rw [hheld]
      rfl
    have htally := tally_erase (f := fun _ agent => agent.counted.toNat) hheld
    have hnone : (({ agentPath := some path } : AgentMetadata).counted.toNat) = 0 := rfl
    rw [hnone, Nat.add_zero] at htally
    rw [hrelease]
    refine ⟨?_, ?_, ?_, hapart⟩
    · show w.registry.totalCount = (w.reservations.insert r .dropping).entries.length + tally _ _ + w.releasing
      rw [← htally, length_insert_old hlookup]
      exact hcount
    · intro key agent hkey
      have hne : key ≠ .path path := by
        rintro rfl
        rw [AList.lookup_erase] at hkey
        cases hkey
      rw [AList.lookup_erase_ne hne] at hkey
      exact h.keyed key agent hkey
    · intro r' reservation' path' hlookup' hpath'
      obtain ⟨hr, hold⟩ := held_of_insert_dropping hlookup' hpath'
      obtain ⟨hheld', hroot⟩ := h.held r' reservation' path' hold hpath'
      have hne : AgentKey.path path' ≠ .path path := by
        intro heq
        cases heq
        exact hr (h.apart r' r _ _ path hold hlookup hpath' rfl)
      exact ⟨(AList.lookup_erase_ne hne).trans hheld', hroot⟩
  next hlookup =>
    refine ⟨?_, h.keyed, ?_, hapart⟩
    · show w.registry.totalCount = (w.reservations.insert r .dropping).entries.length + w.registry.registered + w.releasing
      rw [length_insert_old hlookup]
      exact hcount
    · exact fun r' reservation' path' hlookup' hpath' =>
        h.held r' reservation' path' (held_of_insert_dropping hlookup' hpath').2 hpath'
  next => exact h

/-- A step that subtracts finds a count to subtract from. -/
theorem pos_of_reserved (h : Consistent w)
    (hlookup : w.reservations.lookup r = some reservation) : 0 < w.registry.totalCount := by
  have hlength := length_erase (Option.isSome_of_eq_some hlookup)
  have hcount := h.count
  omega

theorem pos_of_releasing (h : Consistent w) (hreleasing : w.releasing ≠ 0) : 0 < w.registry.totalCount := by
  have hcount := h.count
  omega

theorem fetchSub_of_pos {count : Nat} (h : 0 < count) : fetchSub count = count - 1 := if_neg (Nat.ne_of_gt h)

theorem dropSlot (h : Consistent w) (r : ReservationId) : Consistent (step w (.dropSlot r)) := by
  unfold step
  dsimp only
  split
  next hlookup =>
    have hlength := length_erase (Option.isSome_of_eq_some hlookup)
    have hcount := h.count
    refine ⟨?_, h.keyed, ?_, ?_⟩
    · show fetchSub w.registry.totalCount = (w.reservations.erase r).entries.length + w.registry.registered + w.releasing
      rw [fetchSub_of_pos (h.pos_of_reserved hlookup)]
      omega
    · exact fun r' reservation' path hlookup' => h.held r' reservation' path (lookup_of_erase hlookup').2
    · exact fun r₁ r₂ _ _ path h₁ h₂ => h.apart r₁ r₂ _ _ path (lookup_of_erase h₁).2 (lookup_of_erase h₂).2
  next => exact h

theorem registerRootThread (h : Consistent w) (threadId : ThreadId) : Consistent (step w (.registerRootThread threadId)) := by
  unfold step AgentRegistry.registerRootThread
  dsimp only
  split
  next => exact h
  next hvacant =>
    have hcount := h.count
    refine ⟨?_, ?_, ?_, h.apart⟩
    · have htally := tally_insert_new (f := fun _ agent => agent.counted.toNat) hvacant
      have hnone : (({ agentId := some threadId, agentPath := some rootPath } : AgentMetadata).counted.toNat) = 0 := by
        unfold AgentMetadata.counted AgentMetadata.isRoot
        simp
      show w.registry.totalCount = w.reservations.entries.length + tally _ _ + w.releasing
      rw [htally, hnone, Nat.zero_add]
      exact hcount
    · intro key agent hkey
      by_cases heq : key = .path rootPath
      · subst heq
        cases hkey
        exact .inl ⟨rootPath, rfl, rfl⟩
      · rw [AList.lookup_insert_ne heq] at hkey
        exact h.keyed key agent hkey
    · intro r reservation path hlookup hpath
      obtain ⟨hheld, hroot⟩ := h.held r reservation path hlookup hpath
      have hne : AgentKey.path path ≠ .path rootPath := fun heq => hroot (AgentKey.path.inj heq)
      exact ⟨(AList.lookup_insert_ne hne).trans hheld, hroot⟩

/-- The agent goes from the tree to those being released. -/
theorem releaseAgent (h : Consistent w) (threadId : ThreadId) (key : AgentKey) :
    Consistent (step w (.releaseAgent threadId key)) := by
  unfold step AgentRegistry.removeThread
  dsimp only
  split
  next agent hagent =>
    split
    next hid =>
      have hcount := h.count
      have htally := tally_erase (f := fun _ agent => agent.counted.toNat) hagent
      have hcounted : agent.counted.toNat = (!agent.isRoot).toNat := by
        unfold AgentMetadata.counted
        rw [hid]
        rfl
      refine ⟨?_, ?_, ?_, h.apart⟩
      · have hregistered : w.registry.registered = tally (fun _ agent => agent.counted.toNat) w.registry.agentTree := rfl
        show w.registry.totalCount = w.reservations.entries.length + tally _ (w.registry.agentTree.erase key) +
          (w.releasing + (!agent.isRoot).toNat)
        omega
      · intro key' agent' hkey'
        have hne : key' ≠ key := by
          rintro rfl
          rw [AList.lookup_erase] at hkey'
          cases hkey'
        rw [AList.lookup_erase_ne hne] at hkey'
        exact h.keyed key' agent' hkey'
      · intro r reservation path hlookup hpath
        obtain ⟨hheld, hroot⟩ := h.held r reservation path hlookup hpath
        have hne : AgentKey.path path ≠ key := by
          rintro rfl
          rw [hheld] at hagent
          cases hagent
          cases hid
        exact ⟨(AList.lookup_erase_ne hne).trans hheld, hroot⟩
    next => exact h
  next => exact h

theorem releaseSlot (h : Consistent w) : Consistent (step w .releaseSlot) := by
  unfold step
  dsimp only
  split
  next => exact h
  next hreleasing =>
    have hcount := h.count
    refine ⟨?_, h.keyed, h.held, h.apart⟩
    show fetchSub w.registry.totalCount = w.reservations.entries.length + w.registry.registered + (w.releasing - 1)
    rw [fetchSub_of_pos (h.pos_of_releasing hreleasing)]
    omega

theorem step (h : Consistent w) (a : Action) (hallowed : Allowed w a) : Consistent (step w a) := by
  cases a with
  | reserveSpawnSlot r maxThreads => exact h.reserveSpawnSlot r maxThreads
  | reserveAgentPath r path => exact h.reserveAgentPath r hallowed
  | commit r agent => exact h.commit r hallowed
  | dropPath r => exact h.dropPath r
  | dropSlot r => exact h.dropSlot r
  | registerRootThread threadId => exact h.registerRootThread threadId
  | releaseAgent threadId key => exact h.releaseAgent threadId key
  | releaseSlot => exact h.releaseSlot

theorem start : Consistent {} :=
  ⟨rfl, fun _ _ h => (nomatch h), fun _ _ _ h => (nomatch h), fun _ _ _ _ _ h => (nomatch h)⟩

end Consistent

end Codex.Agents
