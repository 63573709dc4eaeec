/-
The registry of a session's agents: a tree of agents by path, and a count of
spawn slots that limits how many there are. A reservation takes a slot, may
enter a placeholder for a path, and becomes an agent when it is committed; what
is left of it is given back when it is dropped.

The tree has a lock and the count is atomic, so that a drop and a release take
two steps each: the tree first, then the count. Other tasks may come between.

Source: core/src/agent/registry.rs (AgentRegistry, SpawnReservation).
-/
import Codex.Lib.FiniteMaps
import Codex.Lib.Runs
import Codex.Text

namespace Codex.Agents

abbrev ThreadId := Nat
abbrev AgentPath := Text

def rootPath : AgentPath := "/root".toList

structure AgentMetadata where
  agentId : Option ThreadId := none
  agentPath : Option AgentPath := none
  agentNickname : Option Text := none
  agentRole : Option Text := none
  deriving DecidableEq

def AgentMetadata.isRoot (agent : AgentMetadata) : Bool := agent.agentPath == some rootPath

/-- A key of the tree is a path's text, or `thread:` and an id. A path begins with a slash, so
that the two never meet. -/
inductive AgentKey where
  | path (path : AgentPath)
  | thread (threadId : ThreadId)
  deriving DecidableEq

inductive CodexErr where
  | agentLimitReached (maxThreads : Nat)
  | unsupportedOperation (message : Text)

structure AgentRegistry where
  agentTree : AList fun _ : AgentKey => AgentMetadata := ∅
  totalCount : Nat := 0

/-- `fetch_sub(1)` on a `usize`. -/
def fetchSub (count : Nat) : Nat := if count = 0 then 2 ^ 64 - 1 else count - 1

namespace AgentRegistry

def reserveSpawnSlot (s : AgentRegistry) : Option Nat → Except CodexErr AgentRegistry
  | some maxThreads =>
    if maxThreads ≤ s.totalCount then .error (.agentLimitReached maxThreads)
    else .ok { s with totalCount := s.totalCount + 1 }
  | none => .ok { s with totalCount := s.totalCount + 1 }

/-- The part of `release_spawned_thread` under the lock: `key` is the first entry of the thread
that the iteration comes to. Says whether the agent was counted. -/
def removeThread (s : AgentRegistry) (threadId : ThreadId) (key : AgentKey) : AgentRegistry × Bool :=
  match s.agentTree.lookup key with
  | some agent =>
    if agent.agentId = some threadId then ({ s with agentTree := s.agentTree.erase key }, !agent.isRoot)
    else (s, false)
  | none => (s, false)

def registerRootThread (s : AgentRegistry) (threadId : ThreadId) : AgentRegistry :=
  match s.agentTree.lookup (.path rootPath) with
  | some _ => s
  | none => { s with
      agentTree := s.agentTree.insert (.path rootPath) { agentId := some threadId, agentPath := some rootPath } }

def liveAgents (s : AgentRegistry) : List AgentMetadata :=
  (s.agentTree.entries.map Sigma.snd).filter fun agent => agent.agentId.isSome && !agent.isRoot

def registerSpawnedThread (s : AgentRegistry) (agent : AgentMetadata) : AgentRegistry :=
  match agent.agentId with
  | none => s
  | some threadId =>
    let key := match agent.agentPath with
      | some path => AgentKey.path path
      | none => .thread threadId
    { s with agentTree := s.agentTree.insert key agent }

def reserveAgentPath (s : AgentRegistry) (path : AgentPath) : Except CodexErr AgentRegistry :=
  match s.agentTree.lookup (.path path) with
  | some _ => .error (.unsupportedOperation ("agent path `".toList ++ path ++ "` already exists".toList))
  | none => .ok { s with agentTree := s.agentTree.insert (.path path) { agentPath := some path } }

def releaseReservedAgentPath (s : AgentRegistry) (path : AgentPath) : AgentRegistry :=
  match s.agentTree.lookup (.path path) with
  | some agent => if agent.agentId.isNone then { s with agentTree := s.agentTree.erase (.path path) } else s
  | none => s

end AgentRegistry

/-! ## Tasks -/

abbrev ReservationId := Nat

/-- A reservation, until it is committed or its slot is given back. -/
inductive SpawnReservation where
  | live (reservedAgentPath : Option AgentPath)
  | dropping

def SpawnReservation.reservedAgentPath : SpawnReservation → Option AgentPath
  | .live reservedAgentPath => reservedAgentPath
  | .dropping => none

/-- `releasing` counts the releases that have taken an agent out of the tree and not yet off the count. -/
structure World where
  registry : AgentRegistry := {}
  reservations : AList fun _ : ReservationId => SpawnReservation := ∅
  releasing : Nat := 0

inductive Action where
  | reserveSpawnSlot (r : ReservationId) (maxThreads : Option Nat)
  | reserveAgentPath (r : ReservationId) (path : AgentPath)
  | commit (r : ReservationId) (agent : AgentMetadata)
  | dropPath (r : ReservationId)
  | dropSlot (r : ReservationId)
  | registerRootThread (threadId : ThreadId)
  | releaseAgent (threadId : ThreadId) (key : AgentKey)
  | releaseSlot

/-- One step of some task. A call that fails changes nothing. -/
def step (w : World) : Action → World
  | .reserveSpawnSlot r maxThreads =>
    match w.reservations.lookup r, w.registry.reserveSpawnSlot maxThreads with
    | none, .ok registry => { w with registry, reservations := w.reservations.insert r (.live none) }
    | _, _ => w
  | .reserveAgentPath r path =>
    match w.reservations.lookup r, w.registry.reserveAgentPath path with
    | some (.live _), .ok registry => { w with registry, reservations := w.reservations.insert r (.live (some path)) }
    | _, _ => w
  | .commit r agent =>
    match w.reservations.lookup r with
    | some (.live _) =>
      { w with registry := w.registry.registerSpawnedThread agent, reservations := w.reservations.erase r }
    | _ => w
  | .dropPath r =>
    match w.reservations.lookup r with
    | some (.live (some path)) =>
      { w with registry := w.registry.releaseReservedAgentPath path, reservations := w.reservations.insert r .dropping }
    | some (.live none) => { w with reservations := w.reservations.insert r .dropping }
    | _ => w
  | .dropSlot r =>
    match w.reservations.lookup r with
    | some .dropping =>
      { w with
        registry := { w.registry with totalCount := fetchSub w.registry.totalCount }
        reservations := w.reservations.erase r }
    | _ => w
  | .registerRootThread threadId => { w with registry := w.registry.registerRootThread threadId }
  | .releaseAgent threadId key =>
    let (registry, counted) := w.registry.removeThread threadId key
    { w with registry, releasing := w.releasing + counted.toNat }
  | .releaseSlot =>
    if w.releasing = 0 then w
    else { w with
      registry := { w.registry with totalCount := fetchSub w.registry.totalCount }
      releasing := w.releasing - 1 }

end Codex.Agents
