/-
What the app server sees of remote control clients, over any run of the reader.

A task that finishes closes whatever its key stands for, so a task left over
from before an `initialize` closes the connection opened by it
(`stale_task_closes_newer`), and only such a task does
(`completions_own_iff`).
-/
import Codex.ClientTracker
import Codex.Lib.FiniteMaps

namespace Codex.RemoteControl

open Runs
open JsonRpc (JSONRPCMessage)

/-! ## A connection's events -/

namespace TransportEvent

def connectionId : TransportEvent → ConnectionId
  | .connectionOpened c _ | .incomingMessage c .. | .connectionClosed c => c

def isIncoming : TransportEvent → Bool
  | .incomingMessage .. => true
  | .connectionOpened .. | .connectionClosed _ => false

/-- The number of a message whose envelope named its stream. -/
def explicitSeqId : TransportEvent → Option U64
  | .incomingMessage _ _ explicit seqId => if explicit then seqId else none
  | .connectionOpened .. | .connectionClosed _ => none

/-- The number that is remembered of a delivered message: not that of an older client's `initialize`. -/
def recordedSeqId : TransportEvent → Option U64
  | .incomingMessage _ message explicit seqId =>
    if remoteControlMessageStartsConnection message && !explicit then none else seqId
  | .connectionOpened .. | .connectionClosed _ => none

theorem recorded_of_explicit {e : TransportEvent} {q : U64} (h : e.explicitSeqId = some q) : e.recordedSeqId = some q := by
  cases e with
  | connectionOpened => cases h
  | connectionClosed => cases h
  | incomingMessage c message explicit seqId =>
    cases explicit with
    | false => cases h
    | true => rw [recordedSeqId, Bool.not_true, Bool.and_false]; exact h

def opens (key : ClientKey) : TransportEvent → Option ConnectionId
  | .connectionOpened c key' => if key' = key then some c else none
  | .incomingMessage .. | .connectionClosed _ => none

end TransportEvent

def eventsOf (events : List TransportEvent) (c : ConnectionId) : List TransportEvent :=
  events.filter (·.connectionId = c)

def lastOpened (key : ClientKey) (events : List TransportEvent) : Option ConnectionId :=
  (events.filterMap (TransportEvent.opens key)).getLast?

/-- One open; messages, the numbers of those on a stream they name increasing; at most one close; nothing after. -/
def Lifetime (c : ConnectionId) (l : List TransportEvent) : Prop :=
  l = [] ∨ ∃ key messages closed, l = .connectionOpened c key :: messages ++ closed ∧
    (∀ e ∈ messages, e.isIncoming) ∧ (messages.filterMap TransportEvent.explicitSeqId).Pairwise (· < ·) ∧
    (closed = [] ∨ closed = [.connectionClosed c])

/-- Opened and not closed; `last` is the last number remembered. -/
def Running (events : List TransportEvent) (c : ConnectionId) (key : ClientKey) (last : Option U64) : Prop :=
  ∃ messages, eventsOf events c = .connectionOpened c key :: messages ∧ (∀ e ∈ messages, e.isIncoming) ∧
    (messages.filterMap TransportEvent.recordedSeqId).Pairwise (· < ·) ∧
    (messages.filterMap TransportEvent.recordedSeqId).getLast? = last

theorem eventsOf_concat (events : List TransportEvent) (e : TransportEvent) (c : ConnectionId) :
    eventsOf (events ++ [e]) c = eventsOf events c ++ if e.connectionId = c then [e] else [] := by
  unfold eventsOf
  by_cases h : e.connectionId = c <;> simp [h]

theorem eventsOf_concat_ne {events e c} (h : e.connectionId ≠ c) :
    eventsOf (events ++ [e]) c = eventsOf events c := by
  rw [eventsOf_concat, if_neg h, List.append_nil]

theorem lastOpened_concat (key : ClientKey) (events : List TransportEvent) (e : TransportEvent) :
    lastOpened key (events ++ [e]) = (e.opens key).or (lastOpened key events) := by
  unfold lastOpened
  rw [List.filterMap_append, List.getLast?_append]
  cases hopens : e.opens key with
  | none => rw [List.filterMap_cons_none hopens]; rfl
  | some c => rw [List.filterMap_cons_some hopens]; rfl

theorem eventsOf_eq_nil {events c} (h : ∀ e ∈ events, e.connectionId ≠ c) : eventsOf events c = [] :=
  List.filter_eq_nil_iff.2 fun e he => by simpa using h e he

/-- Explicit numbers are among the remembered ones. -/
theorem explicit_sublist (messages : List TransportEvent) :
    (messages.filterMap TransportEvent.explicitSeqId).Sublist (messages.filterMap TransportEvent.recordedSeqId) := by
  induction messages with
  | nil => exact List.Sublist.refl _
  | cons e messages ih =>
    cases hq : e.explicitSeqId with
    | some q =>
      rw [List.filterMap_cons_some hq, List.filterMap_cons_some (TransportEvent.recorded_of_explicit hq)]
      exact ih.cons_cons q
    | none =>
      rw [List.filterMap_cons_none hq, List.filterMap_cons]
      split
      next => exact ih
      next q _ => exact ih.cons q

theorem le_getLast {l : List U64} (h : l.Pairwise (· < ·)) {a : U64} (ha : a ∈ l) : ∃ b ∈ l.getLast?, a ≤ b := by
  have hne := List.ne_nil_of_mem ha
  refine ⟨l.getLast hne, List.getLast?_eq_some_getLast hne, ?_⟩
  rw [← List.dropLast_append_getLast hne] at h ha
  rcases List.mem_append.1 ha with hfront | hlast
  · exact le_of_lt ((List.pairwise_append.1 h).2.2 a hfront _ (List.mem_singleton_self _))
  · exact le_of_eq (List.mem_singleton.1 hlast)

namespace Running

variable {events : List TransportEvent} {c : ConnectionId} {key : ClientKey} {last : Option U64} {e : TransportEvent}

theorem lifetime (h : Running events c key last) : Lifetime c (eventsOf events c) := by
  obtain ⟨messages, heq, hin, hinc, -⟩ := h
  exact .inr ⟨key, messages, [], by rw [heq, List.append_nil], hin, hinc.sublist (explicit_sublist messages), .inl rfl⟩

theorem lifetime_closed (h : Running events c key last) :
    Lifetime c (eventsOf (events ++ [.connectionClosed c]) c) := by
  obtain ⟨messages, heq, hin, hinc, -⟩ := h
  refine .inr ⟨key, messages, [.connectionClosed c], ?_, hin, hinc.sublist (explicit_sublist messages), .inr rfl⟩
  rw [eventsOf_concat, if_pos (show TransportEvent.connectionId (.connectionClosed c) = c from rfl), heq]

theorem other (h : Running events c key last) (hne : e.connectionId ≠ c) : Running (events ++ [e]) c key last := by
  unfold Running at h ⊢
  rw [eventsOf_concat_ne hne]
  exact h

/-- A message above the last remembered number. -/
theorem incoming (h : Running events c key last) (hc : e.connectionId = c) (hin : e.isIncoming)
    (habove : ∀ q ∈ e.recordedSeqId, ∀ l ∈ last, l < q) : Running (events ++ [e]) c key (e.recordedSeqId.or last) := by
  obtain ⟨messages, heq, hmessages, hinc, hlast⟩ := h
  refine ⟨messages ++ [e], ?_, ?_, ?_, ?_⟩
  · rw [eventsOf_concat, if_pos hc, heq, List.cons_append]
  · intro e' he'
    rcases List.mem_append.1 he' with hold | hnew
    · exact hmessages e' hold
    · rw [List.mem_singleton.1 hnew]
      exact hin
  · cases hq : e.recordedSeqId with
    | none =>
      rw [List.filterMap_append, List.filterMap_cons_none hq, List.filterMap_nil, List.append_nil]
      exact hinc
    | some q =>
      rw [List.filterMap_append, List.filterMap_cons_some hq, List.filterMap_nil]
      refine List.pairwise_append.2 ⟨hinc, List.pairwise_singleton .., fun a ha b hb => ?_⟩
      obtain ⟨l, hl, hle⟩ := le_getLast hinc ha
      rw [List.mem_singleton.1 hb]
      exact lt_of_le_of_lt hle (habove q hq l (hlast ▸ hl))
  · rw [List.filterMap_append, List.getLast?_append, hlast]
    cases hq : e.recordedSeqId with
    | none => rw [List.filterMap_cons_none hq]; rfl
    | some q => rw [List.filterMap_cons_some hq]; rfl

theorem eq_key {key' last'} (h : Running events c key last) (h' : Running events c key' last') :
    key = key' := by
  obtain ⟨_, heq, -⟩ := h
  obtain ⟨_, heq', -⟩ := h'
  rw [heq] at heq'
  injection heq' with hopen
  injection hopen

end Running

/-! ## What holds between two waits -/

/-- The maps against the events. A connection is registered from its open until its close is issued. -/
structure Sound (clients : ClientKey → Option ClientState) (legacyStreamIds : ClientId → Option StreamId)
    (nextConnectionId : ConnectionId) (detached issued : List ConnectionId) (events : List TransportEvent) : Prop where
  bounded : ∀ e ∈ events, e.connectionId < nextConnectionId
  issuedBounded : ∀ c ∈ issued, c < nextConnectionId
  live : ∀ key client, clients key = some client → client.connectionId ∉ issued ∧
    Running events client.connectionId key client.lastInboundSeqId ∧ lastOpened key events = some client.connectionId
  detachedNodup : detached.Nodup
  detachedIssued : ∀ c ∈ detached, c ∈ issued ∧ ∃ key last, Running events c key last
  lifetime : ∀ c, Lifetime c (eventsOf events c)
  closedIssued : ∀ c, .connectionClosed c ∈ events → c ∈ issued
  legacy : ∀ clientId streamId, legacyStreamIds clientId = some streamId → (clients (clientId, streamId)).isSome
  registered : ∀ c key, .connectionOpened c key ∈ events → c ∉ issued →
    ∃ client, clients key = some client ∧ client.connectionId = c

namespace Sound

variable {clients : ClientKey → Option ClientState} {legacyStreamIds : ClientId → Option StreamId}
  {nextConnectionId : ConnectionId} {detached issued : List ConnectionId} {events : List TransportEvent}
  {key : ClientKey} {client : ClientState}

open Function (update update_self update_of_ne)

theorem ne_of_key_ne (h : Sound clients legacyStreamIds nextConnectionId detached issued events)
    {key' client'} (hclient : clients key = some client) (hclient' : clients key' = some client')
    (hne : key' ≠ key) : client'.connectionId ≠ client.connectionId := by
  intro heq
  have hrun := (h.live key' client' hclient').2.1
  rw [heq] at hrun
  exact hne (hrun.eq_key (h.live key client hclient).2.1)

variable {c : ConnectionId} {e : TransportEvent}

theorem bound_of_running (h : Sound clients legacyStreamIds nextConnectionId detached issued events)
    {last} (hrun : Running events c key last) : c < nextConnectionId := by
  obtain ⟨messages, heq, -⟩ := hrun
  have hin : TransportEvent.connectionOpened c key ∈ eventsOf events c := by
    rw [heq]
    exact List.mem_cons_self ..
  exact h.bounded _ (List.mem_of_mem_filter hin)

theorem close (h : Sound clients legacyStreamIds nextConnectionId detached issued events) (hclient : clients key = some client) :
    Sound (update clients key none)
      (if legacyStreamIds key.1 = some key.2 then update legacyStreamIds key.1 none else legacyStreamIds)
      nextConnectionId (detached ++ [client.connectionId]) (issued ++ [client.connectionId]) events := by
  obtain ⟨hnot, hrun, -⟩ := h.live key client hclient
  have hbound : client.connectionId < nextConnectionId := h.bound_of_running hrun
  refine ⟨h.bounded, fun c hc => ?_, fun key' client' hclient' => ?_, ?_, fun c hc => ?_, h.lifetime, fun c hc => ?_,
    fun clientId streamId hlegacy => ?_, fun c key' hopen hissued => ?_⟩
  · rcases List.mem_append.1 hc with hold | hnew
    · exact h.issuedBounded c hold
    · rw [List.mem_singleton.1 hnew]
      exact hbound
  · have hne : key' ≠ key := by
      rintro rfl
      rw [update_self] at hclient'
      cases hclient'
    rw [update_of_ne hne] at hclient'
    obtain ⟨hnot', hlive⟩ := h.live key' client' hclient'
    refine ⟨fun hin => ?_, hlive⟩
    rcases List.mem_append.1 hin with hold | hnew
    · exact hnot' hold
    · exact h.ne_of_key_ne hclient hclient' hne (List.mem_singleton.1 hnew)
  · refine List.nodup_append.2 ⟨h.detachedNodup, List.nodup_singleton _, fun c hc c' hc' heq => ?_⟩
    rw [List.mem_singleton.1 hc'] at heq
    exact hnot (heq ▸ (h.detachedIssued c hc).1)
  · rcases List.mem_append.1 hc with hold | hnew
    · obtain ⟨hissued, hrunning⟩ := h.detachedIssued c hold
      exact ⟨List.mem_append_left _ hissued, hrunning⟩
    · rw [List.mem_singleton.1 hnew]
      exact ⟨List.mem_append_right _ (List.mem_singleton_self _), key, _, hrun⟩
  · exact List.mem_append_left _ (h.closedIssued c hc)
  · split at hlegacy
    next hnamed =>
      have hne : clientId ≠ key.1 := by
        rintro rfl
        rw [update_self] at hlegacy
        cases hlegacy
      rw [update_of_ne hne] at hlegacy
      rw [update_of_ne fun heq => hne (congrArg Prod.fst heq)]
      exact h.legacy clientId streamId hlegacy
    next hnamed =>
      have hne : (clientId, streamId) ≠ key := by
        rintro rfl
        exact hnamed hlegacy
      rw [update_of_ne hne]
      exact h.legacy clientId streamId hlegacy
  · rw [List.mem_append, not_or] at hissued
    obtain ⟨client', hclient', rfl⟩ := h.registered c key' hopen hissued.1
    have hne : key' ≠ key := by
      rintro rfl
      rw [hclient] at hclient'
      injection hclient' with heq
      exact hissued.2 (heq ▸ List.mem_singleton_self _)
    exact ⟨client', by rw [update_of_ne hne]; exact hclient', rfl⟩

/-- A client's state changes, but not its connection or the number remembered. -/
theorem touch (h : Sound clients legacyStreamIds nextConnectionId detached issued events) (hclient : clients key = some client)
    {client'} (hid : client'.connectionId = client.connectionId)
    (hlast : client'.lastInboundSeqId = client.lastInboundSeqId) :
    Sound (update clients key (some client')) legacyStreamIds nextConnectionId detached issued events := by
  have hkeep : ∀ key' client₁, clients key' = some client₁ →
      ∃ client₂, update clients key (some client') key' = some client₂ ∧ client₂.connectionId = client₁.connectionId := by
    intro key' client₁ hclient₁
    by_cases hkey : key' = key
    · subst hkey
      rw [hclient] at hclient₁
      cases hclient₁
      exact ⟨client', update_self .., hid⟩
    · exact ⟨client₁, by rw [update_of_ne hkey, hclient₁], rfl⟩
  refine ⟨h.bounded, h.issuedBounded, fun key' client₁ hclient₁ => ?_, h.detachedNodup, h.detachedIssued, h.lifetime,
    h.closedIssued, fun clientId streamId hlegacy => ?_, fun c key' hopen hissued => ?_⟩
  · by_cases hkey : key' = key
    · subst hkey
      rw [update_self] at hclient₁
      cases hclient₁
      rw [hid, hlast]
      exact h.live key' client hclient
    · rw [update_of_ne hkey] at hclient₁
      exact h.live key' client₁ hclient₁
  · obtain ⟨client₁, hclient₁⟩ := Option.isSome_iff_exists.1 (h.legacy clientId streamId hlegacy)
    obtain ⟨client₂, hclient₂, -⟩ := hkeep _ _ hclient₁
    rw [hclient₂]
    rfl
  · obtain ⟨client₁, hclient₁, rfl⟩ := h.registered c key' hopen hissued
    exact hkeep _ _ hclient₁

theorem bounded_concat (h : Sound clients legacyStreamIds nextConnectionId detached issued events)
    (he : e.connectionId < nextConnectionId) : ∀ e' ∈ events ++ [e], e'.connectionId < nextConnectionId := by
  intro e' he'
  rcases List.mem_append.1 he' with hold | hnew
  · exact h.bounded e' hold
  · rw [List.mem_singleton.1 hnew]
    exact he

theorem lifetime_concat (h : Sound clients legacyStreamIds nextConnectionId detached issued events)
    (hown : Lifetime e.connectionId (eventsOf (events ++ [e]) e.connectionId)) (c : ConnectionId) :
    Lifetime c (eventsOf (events ++ [e]) c) := by
  by_cases hc : e.connectionId = c
  · subst hc
    exact hown
  · rw [eventsOf_concat_ne hc]
    exact h.lifetime c

/-- A message to a registered client, above what it remembers, and remembered. -/
theorem incoming (h : Sound clients legacyStreamIds nextConnectionId detached issued events) (hclient : clients key = some client)
    (he : e.connectionId = client.connectionId) (hin : e.isIncoming)
    (habove : ∀ q ∈ e.recordedSeqId, ∀ l ∈ client.lastInboundSeqId, l < q) :
    Sound (update clients key (some { client with lastInboundSeqId := e.recordedSeqId.or client.lastInboundSeqId }))
      legacyStreamIds nextConnectionId detached issued (events ++ [e]) := by
  obtain ⟨hnot, hrun, hlast⟩ := h.live key client hclient
  have hnext := hrun.incoming he hin habove
  have hopens : ∀ key', e.opens key' = none := by
    cases e with
    | incomingMessage => exact fun _ => rfl
    | connectionOpened => cases hin
    | connectionClosed => cases hin
  refine ⟨h.bounded_concat (he ▸ h.bound_of_running hrun), h.issuedBounded, fun key' client₁ hclient₁ => ?_,
    h.detachedNodup, fun c hc => ?_, h.lifetime_concat (he ▸ hnext.lifetime), fun c hc => ?_, fun clientId streamId hlegacy => ?_,
    fun c key' hopen hissued => ?_⟩
  · by_cases hkey : key' = key
    · subst hkey
      rw [update_self] at hclient₁
      cases hclient₁
      exact ⟨hnot, hnext, by rw [lastOpened_concat, hopens]; exact hlast⟩
    · rw [update_of_ne hkey] at hclient₁
      obtain ⟨hnot₁, hrun₁, hlast₁⟩ := h.live key' client₁ hclient₁
      have hne : e.connectionId ≠ client₁.connectionId := he ▸ (h.ne_of_key_ne hclient hclient₁ hkey).symm
      exact ⟨hnot₁, hrun₁.other hne, by rw [lastOpened_concat, hopens]; exact hlast₁⟩
  · obtain ⟨hc, key', last, hrun'⟩ := h.detachedIssued c hc
    exact ⟨hc, key', last, hrun'.other fun heq => hnot (he ▸ heq ▸ hc)⟩
  · rcases List.mem_append.1 hc with hold | hnew
    · exact h.closedIssued c hold
    · rw [← List.mem_singleton.1 hnew] at hin
      cases hin
  · by_cases hkey : (clientId, streamId) = key
    · rw [hkey, update_self]
      rfl
    · rw [update_of_ne hkey]
      exact h.legacy clientId streamId hlegacy
  · have hopen' : .connectionOpened c key' ∈ events := by
      rcases List.mem_append.1 hopen with hold | hnew
      · exact hold
      · rw [← List.mem_singleton.1 hnew] at hin
        cases hin
    obtain ⟨client₁, hclient₁, rfl⟩ := h.registered c key' hopen' hissued
    by_cases hkey : key' = key
    · subst hkey
      rw [hclient] at hclient₁
      cases hclient₁
      exact ⟨_, update_self .., rfl⟩
    · exact ⟨client₁, by rw [update_of_ne hkey, hclient₁], rfl⟩

theorem opened (h : Sound clients legacyStreamIds nextConnectionId detached issued events) (hclient : clients key = none)
    (hbound : c < nextConnectionId) (hissued : c ∉ issued) (hfresh : eventsOf events c = []) (now : Nat) :
    Sound (update clients key (some { connectionId := c, lastActivityAt := now, lastInboundSeqId := none })) legacyStreamIds
      nextConnectionId detached issued (events ++ [.connectionOpened c key]) := by
  have hnew : Running (events ++ [.connectionOpened c key]) c key none := by
    refine ⟨[], ?_, fun _ he => absurd he List.not_mem_nil, List.Pairwise.nil, rfl⟩
    rw [eventsOf_concat, hfresh, if_pos (show TransportEvent.connectionId (.connectionOpened c key) = c from rfl),
      List.nil_append]
  have hother : ∀ {c' key' last}, Running events c' key' last → c ≠ c' := by
    rintro c' key' last ⟨messages, heq, -⟩ rfl
    rw [hfresh] at heq
    cases heq
  refine ⟨h.bounded_concat hbound, h.issuedBounded, fun key' client₁ hclient₁ => ?_, h.detachedNodup,
    fun c' hc' => ?_, h.lifetime_concat hnew.lifetime, fun c' hc' => ?_, fun clientId streamId hlegacy => ?_,
    fun c' key' hopen hissued' => ?_⟩
  · by_cases hkey : key' = key
    · subst hkey
      rw [update_self] at hclient₁
      cases hclient₁
      refine ⟨hissued, hnew, ?_⟩
      rw [lastOpened_concat, TransportEvent.opens, if_pos rfl]
      rfl
    · rw [update_of_ne hkey] at hclient₁
      obtain ⟨hnot₁, hrun₁, hlast₁⟩ := h.live key' client₁ hclient₁
      refine ⟨hnot₁, hrun₁.other (hother hrun₁), ?_⟩
      rw [lastOpened_concat, TransportEvent.opens, if_neg (Ne.symm hkey)]
      exact hlast₁
  · obtain ⟨hc', key', last, hrun'⟩ := h.detachedIssued c' hc'
    exact ⟨hc', key', last, hrun'.other (hother hrun')⟩
  · rcases List.mem_append.1 hc' with hold | hopen
    · exact h.closedIssued c' hold
    · cases List.mem_singleton.1 hopen
  · by_cases hkey : (clientId, streamId) = key
    · rw [hkey, update_self]
      rfl
    · rw [update_of_ne hkey]
      exact h.legacy clientId streamId hlegacy
  · rcases List.mem_append.1 hopen with hold | hopen
    · obtain ⟨client₁, hclient₁, rfl⟩ := h.registered c' key' hold hissued'
      have hkey : key' ≠ key := by
        rintro rfl
        rw [hclient] at hclient₁
        cases hclient₁
      exact ⟨client₁, by rw [update_of_ne hkey, hclient₁], rfl⟩
    · cases List.mem_singleton.1 hopen
      exact ⟨_, update_self .., rfl⟩

/-- A close that was issued reaches the app server. -/
theorem closeSent (h : Sound clients legacyStreamIds nextConnectionId detached issued events)
    (hc : c ∈ detached) :
    Sound clients legacyStreamIds nextConnectionId (detached.erase c) issued (events ++ [.connectionClosed c]) := by
  obtain ⟨hissued, key, last, hrun⟩ := h.detachedIssued c hc
  refine ⟨h.bounded_concat (h.issuedBounded c hissued), h.issuedBounded, fun key' client₁ hclient₁ => ?_,
    h.detachedNodup.erase c, fun c' hc' => ?_, h.lifetime_concat hrun.lifetime_closed, fun c' hc' => ?_, h.legacy,
    fun c' key' hopen hissued' => ?_⟩
  · obtain ⟨hnot₁, hrun₁, hlast₁⟩ := h.live key' client₁ hclient₁
    refine ⟨hnot₁, hrun₁.other fun heq => hnot₁ (heq ▸ hissued), ?_⟩
    rw [lastOpened_concat]
    exact hlast₁
  · obtain ⟨hne, hc'⟩ := (h.detachedNodup.mem_erase_iff).1 hc'
    obtain ⟨hissued', key', last', hrun'⟩ := h.detachedIssued c' hc'
    exact ⟨hissued', key', last', hrun'.other (Ne.symm hne)⟩
  · rcases List.mem_append.1 hc' with hold | hnew
    · exact h.closedIssued c' hold
    · cases List.mem_singleton.1 hnew
      exact hissued
  · rcases List.mem_append.1 hopen with hold | hnew
    · exact h.registered c' key' hold hissued'
    · cases List.mem_singleton.1 hnew

theorem closeLost (h : Sound clients legacyStreamIds nextConnectionId detached issued events) (c : ConnectionId) :
    Sound clients legacyStreamIds nextConnectionId (detached.erase c) issued events :=
  { h with
    detachedNodup := h.detachedNodup.erase c
    detachedIssued := fun c' hc' => h.detachedIssued c' (List.mem_of_mem_erase hc') }

theorem next (h : Sound clients legacyStreamIds nextConnectionId detached issued events) :
    Sound clients legacyStreamIds (nextConnectionId + 1) detached issued events :=
  { h with
    bounded := fun e he => Nat.lt_succ_of_lt (h.bounded e he)
    issuedBounded := fun c hc => Nat.lt_succ_of_lt (h.issuedBounded c hc) }

theorem eraseLegacy (h : Sound clients legacyStreamIds nextConnectionId detached issued events) (clientId : ClientId) :
    Sound clients (update legacyStreamIds clientId none) nextConnectionId detached issued events := by
  refine { h with legacy := fun clientId' streamId hlegacy => ?_ }
  by_cases hne : clientId' = clientId
  · subst hne
    rw [update_self] at hlegacy
    cases hlegacy
  · rw [update_of_ne hne] at hlegacy
    exact h.legacy clientId' streamId hlegacy

theorem insertLegacy (h : Sound clients legacyStreamIds nextConnectionId detached issued events)
    (hclient : (clients key).isSome) :
    Sound clients (update legacyStreamIds key.1 (some key.2)) nextConnectionId detached issued events := by
  refine { h with legacy := fun clientId streamId hlegacy => ?_ }
  by_cases hne : clientId = key.1
  · subst hne
    rw [update_self] at hlegacy
    cases hlegacy
    exact hclient
  · rw [update_of_ne hne] at hlegacy
    exact h.legacy clientId streamId hlegacy

end Sound

/-! ## The tracker's operations -/

namespace ClientTracker

def client (t : ClientTracker) (key : ClientKey) : Option ClientState := t.clients.lookup key

def legacyStreamId (t : ClientTracker) (clientId : ClientId) : Option StreamId := t.legacyStreamIds.lookup clientId

variable (t : ClientTracker) (key : ClientKey)

open Function (update update_self update_of_ne)

theorem client_setClient (client : ClientState) : (t.setClient key client).client = update t.client key (some client) :=
  FiniteMaps.lookup_insert_eq ..

theorem client_removeClient : (t.removeClient key).client = update t.client key none := FiniteMaps.lookup_erase_eq ..

theorem legacyStreamId_removeClient : (t.removeClient key).legacyStreamId =
    if t.legacyStreamId key.1 = some key.2 then update t.legacyStreamId key.1 none else t.legacyStreamId := by
  unfold removeClient legacyStreamId
  split
  · exact FiniteMaps.lookup_erase_eq ..
  · rfl

theorem client_insertClient (i : Initialize) (c : ConnectionId) (now : Nat) : (t.insertClient i c now).client =
    update t.client i.clientKey (some { connectionId := c, lastActivityAt := now, lastInboundSeqId := none }) :=
  FiniteMaps.lookup_insert_eq ..

theorem legacyStreamId_insertClient (i : Initialize) (c : ConnectionId) (now : Nat) :
    (t.insertClient i c now).legacyStreamId =
      if i.explicit then t.legacyStreamId else update t.legacyStreamId i.clientKey.1 (some i.clientKey.2) := by
  unfold insertClient legacyStreamId
  split
  · rfl
  · exact FiniteMaps.lookup_insert_eq ..

theorem recordInboundMessageDelivery_eq {client} (hclient : t.client key = some client) (seqId : Option U64) :
    (t.recordInboundMessageDelivery key seqId).client =
      update t.client key (some { client with lastInboundSeqId := seqId.or client.lastInboundSeqId }) := by
  unfold recordInboundMessageDelivery
  cases seqId with
  | none =>
    rw [Option.none_or, ← hclient, Function.update_eq_self]
  | some seqId =>
    have hlookup : t.clients.lookup key = some client := hclient
    simp only [hlookup]
    exact client_setClient ..

theorem recordInboundMessageDelivery_frame (seqId : Option U64) :
    (t.recordInboundMessageDelivery key seqId).legacyStreamId = t.legacyStreamId ∧
      (t.recordInboundMessageDelivery key seqId).nextConnectionId = t.nextConnectionId := by
  unfold recordInboundMessageDelivery
  split
  · exact ⟨rfl, rfl⟩
  · exact ⟨rfl, rfl⟩

end ClientTracker

/-! ## Every step -/

namespace Reader

open Function (update update_self update_of_ne)

variable {s : Reader} {key : ClientKey} {client : ClientState}

/-- The maps and the events of a reader fit together. -/
def Consistent (s : Reader) : Prop :=
  Sound s.tracker.client s.tracker.legacyStreamId s.tracker.nextConnectionId s.detached s.issued s.events

/-- What the handler relies on when it goes on. -/
def StageReady (s : Reader) : Stage → Prop
  | .idle | .closing _ (.closeAll _) => True
  | .closing _ (.reopen i) => s.tracker.client i.clientKey = none ∧ remoteControlMessageStartsConnection i.message
  | .opening i c => s.tracker.client i.clientKey = none ∧ remoteControlMessageStartsConnection i.message ∧
      c < s.tracker.nextConnectionId ∧ c ∉ s.issued ∧ eventsOf s.events c = []
  | .initializing i c => remoteControlMessageStartsConnection i.message ∧
      ∃ client, s.tracker.client i.clientKey = some client ∧ client.connectionId = c ∧ client.lastInboundSeqId = none
  | .forwarding key c message _ seqId => remoteControlMessageStartsConnection message = false ∧
      ∃ client, s.tracker.client key = some client ∧ client.connectionId = c ∧
        ∀ q ∈ seqId, ∀ l ∈ client.lastInboundSeqId, l < q

/-- The invariant of every run. -/
structure Invariant (s : Reader) : Prop where
  consistent : s.Consistent
  ready : s.StageReady s.stage

theorem Consistent.issueClose (h : s.Consistent) (hclient : s.tracker.client key = some client) (stage : Stage) :
    (s.issueClose key client stage).Consistent := by
  have hclose := Sound.close h hclient
  unfold Consistent
  simp only [Reader.issueClose, ClientTracker.client_removeClient, ClientTracker.legacyStreamId_removeClient]
  exact hclose

theorem Consistent.closeAll (h : s.Consistent) (keys : List ClientKey) : (s.closeAll keys).Invariant := by
  induction keys with
  | nil => exact ⟨h, trivial⟩
  | cons key keys ih =>
    unfold Reader.closeAll
    split
    next => exact ih
    next client hclient => exact ⟨h.issueClose hclient _, trivial⟩

theorem Consistent.startOpening (h : s.Consistent) {i} (hclient : s.tracker.client i.clientKey = none)
    (hstarts : remoteControlMessageStartsConnection i.message) : (s.startOpening i).Invariant := by
  refine ⟨h.next, hclient, hstarts, Nat.lt_succ_self _, fun hin => ?_, eventsOf_eq_nil fun e he heq => ?_⟩
  · exact absurd (h.issuedBounded _ hin) (Nat.lt_irrefl _)
  · exact absurd (heq ▸ h.bounded e he) (Nat.lt_irrefl _)

theorem Consistent.idle (h : s.Consistent) : ({ s with stage := .idle } : Reader).Invariant := ⟨h, trivial⟩

theorem Consistent.touch (h : s.Consistent) (hclient : s.tracker.client key = some client) (now : Nat) :
    ({ s with tracker := s.tracker.setClient key { client with lastActivityAt := now } } : Reader).Consistent := by
  unfold Consistent
  simp only [ClientTracker.client_setClient]
  exact Sound.touch h hclient rfl rfl

theorem isDuplicate_of_le (hclient : s.tracker.client key = some client) {q l : U64}
    (hlast : client.lastInboundSeqId = some l) (hle : q ≤ l) : s.isDuplicate key (some q) = true := by
  have hlookup : s.tracker.clients.lookup key = some client := hclient
  unfold isDuplicate
  simp only [hlookup, hlast]
  exact decide_eq_true hle

theorem Invariant.handleClientMessage (h : s.Invariant) (message : JSONRPCMessage) (explicit : Bool) (seqId : Option U64)
    (now : Nat) : (s.handleClientMessage key message explicit seqId now).Invariant := by
  unfold Reader.handleClientMessage
  dsimp only
  split
  next => exact h
  next hfirst =>
    split
    next client hclient hstarts =>
      refine ⟨h.consistent.issueClose hclient _, ?_, hstarts⟩
      show (s.tracker.removeClient key).client key = none
      rw [ClientTracker.client_removeClient, update_self]
    next client hclient hstarts =>
      refine ⟨h.consistent.touch hclient now, hstarts, { client with lastActivityAt := now }, ?_, rfl, ?_⟩
      · show (s.tracker.setClient key _).client key = _
        rw [ClientTracker.client_setClient, update_self]
      · intro q hq l hl
        cases Option.mem_def.1 hq
        refine lt_of_not_ge fun hle => hfirst ?_
        have hlast : client.lastInboundSeqId = some l := hl
        rw [hstarts, isDuplicate_of_le hclient hlast hle]
        rfl
    next hclient hstarts => exact h.consistent.startOpening hclient hstarts
    next => exact h

theorem Invariant.handlePing (h : s.Invariant) (hidle : s.stage = .idle) (now : Nat) : (s.handlePing key now).Invariant := by
  unfold Reader.handlePing
  split
  next client hclient =>
    refine ⟨h.consistent.touch hclient now, ?_⟩
    rw [hidle]
    trivial
  next =>
    refine ⟨h.consistent, ?_⟩
    rw [hidle]
    trivial

theorem Consistent.resolveStream (h : s.Consistent) (e : ClientEnvelope) (random : StreamId) :
    ({ s with tracker := (s.tracker.resolveStream e random).2 } : Reader).Consistent := by
  unfold ClientTracker.resolveStream
  split
  next => exact h
  next =>
    split
    next =>
      have herase := Sound.eraseLegacy h e.clientId
      rw [← show (fun clientId => (s.tracker.legacyStreamIds.erase e.clientId).lookup clientId) =
        update s.tracker.legacyStreamId e.clientId none from FiniteMaps.lookup_erase_eq ..] at herase
      exact herase
    next =>
      split
      · exact h
      · exact h

theorem Invariant.handleMessage (h : s.Invariant) (hidle : s.stage = .idle) (e : ClientEnvelope) (now : Nat)
    (random : StreamId) : (s.handleMessage e now random).Invariant := by
  have hresolved : ({ s with tracker := (s.tracker.resolveStream e random).2 } : Reader).Invariant := by
    refine ⟨h.consistent.resolveStream e random, ?_⟩
    rw [hidle]
    trivial
  unfold Reader.handleMessage
  dsimp only
  split
  next => exact hresolved
  next =>
    split
    next message _ => exact hresolved.handleClientMessage message e.streamId.isSome e.seqId now
    next => exact hresolved
    next => exact hresolved
    next => exact hresolved.handlePing hidle now
    next => exact hresolved.consistent.closeAll _

/-- A message forwarded to a registered client, and its number remembered as `recorded`. -/
theorem Consistent.deliver (h : s.Consistent) (hclient : s.tracker.client key = some client) {message}
    {explicit : Bool} {seqId recorded}
    (hrecorded : TransportEvent.recordedSeqId (.incomingMessage client.connectionId message explicit seqId) = recorded)
    (habove : ∀ q ∈ recorded, ∀ l ∈ client.lastInboundSeqId, l < q) :
    ({ s with
      tracker := s.tracker.recordInboundMessageDelivery key recorded
      stage := .idle
      events := s.events ++ [.incomingMessage client.connectionId message explicit seqId] } : Reader).Invariant := by
  have hin := Sound.incoming (e := .incomingMessage client.connectionId message explicit seqId) h hclient rfl rfl
    (hrecorded ▸ habove)
  rw [hrecorded, ← ClientTracker.recordInboundMessageDelivery_eq _ _ hclient] at hin
  obtain ⟨hlegacy, hnext⟩ := ClientTracker.recordInboundMessageDelivery_frame s.tracker key recorded
  refine ⟨?_, trivial⟩
  unfold Consistent
  rw [hlegacy, hnext]
  exact hin

theorem Invariant.forwarded (h : s.Invariant) (ok : Bool) (now : Nat) : (s.forwarded ok now).Invariant := by
  have hready := h.ready
  unfold Reader.forwarded
  split
  next i c hstage =>
    rw [hstage] at hready
    obtain ⟨hnone, hstarts, hbound, hissued, hfresh⟩ := hready
    refine ⟨?_, hstarts, { connectionId := c, lastActivityAt := now, lastInboundSeqId := none }, ?_, rfl, rfl⟩
    · have hopened := Sound.opened h.consistent hnone hbound hissued hfresh now
      rw [← ClientTracker.client_insertClient] at hopened
      unfold Consistent
      rw [ClientTracker.legacyStreamId_insertClient]
      split
      next => exact hopened
      next =>
        refine hopened.insertLegacy ?_
        rw [ClientTracker.client_insertClient, update_self]
        rfl
    · show (s.tracker.insertClient i c now).client i.clientKey = _
      rw [ClientTracker.client_insertClient, update_self]
  next i c hstage =>
    rw [hstage] at hready
    obtain ⟨hstarts, client, hclient, rfl, hlast⟩ := hready
    have habove : ∀ recorded : Option U64, ∀ q ∈ recorded, ∀ l ∈ client.lastInboundSeqId, l < q := by
      intro recorded q _ l hl
      rw [hlast] at hl
      cases hl
    cases hexplicit : i.explicit with
    | true => exact h.consistent.deliver hclient (by rw [TransportEvent.recordedSeqId, hstarts]; rfl) (habove _)
    | false => exact h.consistent.deliver hclient (by rw [TransportEvent.recordedSeqId, hstarts]; rfl) (habove none)
  next i c hstage =>
    split
    next client hclient => exact ⟨h.consistent.issueClose hclient _, trivial⟩
    next => exact h.consistent.idle
  next key c message explicit seqId hstage =>
    rw [hstage] at hready
    obtain ⟨hstarts, client, hclient, rfl, habove⟩ := hready
    exact h.consistent.deliver hclient (by rw [TransportEvent.recordedSeqId, hstarts]; rfl) habove
  next => exact h.consistent.idle
  next => exact h.consistent.idle
  next => exact h
  next => exact h

theorem Invariant.closeEnded (h : s.Invariant) {c} (hc : c ∈ s.detached) (ok : Bool) : ({ s with
      detached := s.detached.erase c
      events := if ok then s.events ++ [.connectionClosed c] else s.events } : Reader).Invariant := by
  have hissued := (h.consistent.detachedIssued c hc).1
  have hready := h.ready
  cases ok with
  | false => exact ⟨Sound.closeLost h.consistent c, hready⟩
  | true =>
    refine ⟨Sound.closeSent h.consistent hc, ?_⟩
    cases hstage : s.stage with
    | idle => trivial
    | closing c' next => rw [hstage] at hready; cases next <;> exact hready
    | initializing i c' => rw [hstage] at hready; exact hready
    | forwarding key c' message explicit seqId => rw [hstage] at hready; exact hready
    | opening i c' =>
      rw [hstage] at hready
      obtain ⟨hnone, hstarts, hbound, hnot, hfresh⟩ := hready
      refine ⟨hnone, hstarts, hbound, hnot, ?_⟩
      show eventsOf (s.events ++ [.connectionClosed c]) c' = []
      rw [eventsOf_concat_ne (by rintro rfl; exact hnot hissued), hfresh]

theorem Invariant.closeSent (h : s.Invariant) (c : ConnectionId) (ok : Bool) : (s.closeSent c ok).Invariant := by
  unfold Reader.closeSent
  split
  next hc =>
    have hended := h.closeEnded (List.contains_iff_mem.1 hc) ok
    dsimp only
    split
    next waited next hstage =>
      split
      next =>
        split
        next hok =>
          subst hok
          have hready := hended.ready
          rw [show Reader.stage _ = s.stage from rfl, hstage] at hready
          cases next with
          | closeAll rest => exact hended.consistent.closeAll rest
          | reopen i => exact hended.consistent.startOpening hready.1 hready.2
        next hok =>
          cases Bool.eq_false_iff.2 hok
          exact hended.consistent.idle
      next => exact hended
    next => exact hended
  next => exact h

theorem Invariant.finished (h : s.Invariant) (hidle : s.stage = .idle) (task : Nat) (joined : Bool) :
    (s.finished task joined).Invariant := by
  unfold Reader.finished
  split
  next => exact h
  next t _ =>
    split
    next => exact Consistent.closeAll (s := { s with
        tracker := { s.tracker with joinSet := s.tracker.joinSet.eraseIdx task }
        completions := s.completions ++ [_] }) h.consistent _
    next =>
      refine ⟨h.consistent, ?_⟩
      rw [hidle]
      trivial

theorem Invariant.step (h : s.Invariant) (a : ReaderAction) : (s.step a).Invariant := by
  unfold Reader.step
  split
  next hidle => exact h.handleMessage hidle ..
  next hidle => exact h.finished hidle ..
  next =>
    split
    next => exact h.consistent.closeAll _
    next => exact h
  next => exact h.consistent.closeAll _
  next => exact h
  next => exact h
  next => exact h
  next => exact h
  next => exact h.forwarded ..
  next => exact h.closeSent ..
  next => exact h.consistent.idle

/-! ## Every run -/

theorem invariant_run (actions : List ReaderAction) : (run step {} actions).Invariant :=
  run_invariant (fun _ a h => h.step a)
    ⟨⟨fun _ he => absurd he List.not_mem_nil, fun _ hc => absurd hc List.not_mem_nil, fun _ _ hc => (nomatch hc),
      List.nodup_nil, fun _ hc => absurd hc List.not_mem_nil, fun _ => .inl rfl, fun _ hc => absurd hc List.not_mem_nil,
      fun _ _ hl => (nomatch hl), fun _ _ hopen => absurd hopen List.not_mem_nil⟩, trivial⟩ actions

/-- The numbers remembered of the messages a connection got. -/
def recordedSeqIds (c : ConnectionId) (events : List TransportEvent) : List U64 :=
  (eventsOf events c).filterMap TransportEvent.recordedSeqId

/-- **Each connection is opened once, gets its messages in order, and is closed at most once, after them.** -/
theorem connections_live (actions : List ReaderAction) :
    let s := run step {} actions
    (∀ c, Lifetime c (eventsOf s.events c)) ∧
      (∀ key c c', .connectionOpened c key ∈ s.events → .connectionOpened c' key ∈ s.events → c ∉ s.issued →
        c' ∉ s.issued → c = c') ∧
      (∀ c, .connectionClosed c ∈ s.events → c ∈ s.issued) ∧
      (∀ clientId streamId, s.tracker.legacyStreamIds.lookup clientId = some streamId →
        (clientId, streamId) ∈ s.tracker.clients) ∧
      ∀ key client, s.tracker.clients.lookup key = some client →
        client.lastInboundSeqId = (recordedSeqIds client.connectionId s.events).getLast? := by
  intro s
  have h : s.Consistent := (invariant_run actions).consistent
  refine ⟨h.lifetime, fun key c c' hopen hopen' hissued hissued' => ?_, h.closedIssued, fun clientId streamId hlegacy => ?_,
    fun key client hclient => ?_⟩
  · obtain ⟨client, hclient, rfl⟩ := h.registered c key hopen hissued
    obtain ⟨client', hclient', rfl⟩ := h.registered c' key hopen' hissued'
    rw [hclient] at hclient'
    cases hclient'
    rfl
  · exact AList.lookup_isSome.1 (h.legacy clientId streamId hlegacy)
  · obtain ⟨-, ⟨messages, heq, -, -, hlast⟩, -⟩ := h.live key client hclient
    rw [recordedSeqIds, heq, ← hlast]
    rfl

/-- At most one connection of a key was opened and has not been closed, as the app server sees it. -/
def OpenOnce (events : List TransportEvent) : Prop :=
  ∀ key c c', .connectionOpened c key ∈ events → .connectionOpened c' key ∈ events → .connectionClosed c ∉ events →
    .connectionClosed c' ∉ events → c = c'

def exampleKey : ClientKey := ("client".toList, "stream".toList)

/-- A client's `initialize` on the stream it names. -/
def exampleStart (seqId : U64) : ClientEnvelope :=
  { event := .clientMessage (.request
      { id := .integer ⟨1, by decide⟩, method := "initialize".toList, params := none, trace := none })
    clientId := exampleKey.1, streamId := some exampleKey.2, seqId := some seqId }

/-- The first `initialize` is not taken in time; the client reconnects and starts again. -/
def reopenedRun : List ReaderAction :=
  [.handle (exampleStart 1) 0 [], .forwarded true 0, .forwarded false 0, .handle (exampleStart 2) 0 [], .forwarded true 0]

/-- The close of a connection whose `initialize` was not taken is sent in the
background, and may come after the next connection of the key is opened. -/
theorem reopened_before_close : ¬ OpenOnce (run step {} reopenedRun).events := by
  have hevents : (run step {} reopenedRun).events = [.connectionOpened 0 exampleKey, .connectionOpened 1 exampleKey] := by
    rfl
  intro h
  rw [hevents] at h
  have heq := h exampleKey 0 1 (by simp) (by simp) (by simp) (by simp)
  cases heq

/-! ## Tasks that finish -/

/-- Whatever was closed because a task finished is the connection the task was spawned for. -/
def CompletionsOwn (s : Reader) : Prop := ∀ done ∈ s.completions, ∀ c ∈ done.closed, c = done.spawnedFor

/-- A task that finishes is that of the connection last opened for its key, or the key has no client. -/
def FinishesCurrent (s : Reader) (a : ReaderAction) : Prop :=
  match a, s.stage with
  | .finished task true, .idle =>
    ∀ t ∈ s.tracker.joinSet[task]?, t.clientKey ∈ s.tracker.clients →
      lastOpened t.clientKey s.events = some t.connectionId
  | _, _ => True

theorem completions_closeAll (s : Reader) (keys : List ClientKey) : (s.closeAll keys).completions = s.completions := by
  induction keys with
  | nil => rfl
  | cons key keys ih =>
    unfold closeAll
    split
    · exact ih
    · rfl

theorem completions_handleMessage (s : Reader) (e : ClientEnvelope) (now : Nat) (random : StreamId) :
    (s.handleMessage e now random).completions = s.completions := by
  unfold handleMessage handleClientMessage handlePing
  dsimp only
  repeat' split
  all_goals first | rfl | exact completions_closeAll _ _

theorem completions_forwarded (s : Reader) (ok : Bool) (now : Nat) : (s.forwarded ok now).completions = s.completions := by
  unfold forwarded
  repeat' split
  all_goals rfl

theorem completions_closeSent (s : Reader) (c : ConnectionId) (ok : Bool) : (s.closeSent c ok).completions = s.completions := by
  unfold closeSent
  dsimp only
  split
  next =>
    split
    next next _ =>
      split
      next =>
        split
        next =>
          cases next with
          | closeAll rest => exact completions_closeAll _ _
          | reopen i => rfl
        next => rfl
      next => rfl
    next => rfl
  next => rfl

theorem finishesCurrent_of_ne {a} (h : ∀ task, a = .finished task true → s.stage ≠ .idle) :
    s.FinishesCurrent a := by
  unfold FinishesCurrent
  split
  next task hidle => exact absurd hidle (h task rfl)
  next => trivial

/-- A step records a completion when a task finishes, and else meets the condition. -/
theorem completions_step (s : Reader) (a : ReaderAction) :
    ((s.step a).completions = s.completions ∧ s.FinishesCurrent a) ∨
      ∃ task t, a = .finished task true ∧ s.stage = .idle ∧ s.tracker.joinSet[task]? = some t ∧
        (s.step a).completions = s.completions ++
          [{ spawnedFor := t.connectionId, closed := (s.tracker.client t.clientKey).map ClientState.connectionId }] := by
  unfold step
  split
  next => exact .inl ⟨completions_handleMessage .., finishesCurrent_of_ne nofun⟩
  next task joined hidle =>
    unfold finished
    split
    next htask =>
      refine .inl ⟨rfl, ?_⟩
      cases joined with
      | false => exact finishesCurrent_of_ne nofun
      | true =>
        unfold FinishesCurrent
        rw [hidle]
        intro t ht
        rw [htask] at ht
        cases ht
    next t htask =>
      split
      next hjoined => exact .inr ⟨task, t, by rw [hjoined], hidle, htask, completions_closeAll _ _⟩
      next hjoined =>
        refine .inl ⟨rfl, finishesCurrent_of_ne fun task' heq => ?_⟩
        cases heq
        exact absurd rfl hjoined
  next =>
    split
    next => exact .inl ⟨completions_closeAll _ _, finishesCurrent_of_ne nofun⟩
    next => exact .inl ⟨rfl, finishesCurrent_of_ne nofun⟩
  next => exact .inl ⟨completions_closeAll _ _, finishesCurrent_of_ne nofun⟩
  next => exact .inl ⟨rfl, finishesCurrent_of_ne nofun⟩
  next hbusy => exact .inl ⟨rfl, finishesCurrent_of_ne fun _ _ => hbusy⟩
  next => exact .inl ⟨rfl, finishesCurrent_of_ne nofun⟩
  next => exact .inl ⟨rfl, finishesCurrent_of_ne nofun⟩
  next => exact .inl ⟨completions_forwarded .., finishesCurrent_of_ne nofun⟩
  next => exact .inl ⟨completions_closeSent .., finishesCurrent_of_ne nofun⟩
  next => exact .inl ⟨rfl, finishesCurrent_of_ne nofun⟩

theorem completionsOwn_concat (h : s.CompletionsOwn) {s' : Reader} {done}
    (hs' : s'.completions = s.completions ++ [done]) : s'.CompletionsOwn ↔ ∀ c ∈ done.closed, c = done.spawnedFor := by
  unfold CompletionsOwn
  rw [hs']
  constructor
  · exact fun hall => hall done (List.mem_append_right _ (List.mem_singleton_self _))
  · intro hdone done' hin
    rcases List.mem_append.1 hin with hold | hnew
    · exact h done' hold
    · rw [List.mem_singleton.1 hnew]
      exact hdone

/-- A step closes only the task's own connection exactly under the condition. -/
theorem completionsOwn_step (hinv : s.Invariant) (hown : s.CompletionsOwn) (a : ReaderAction) :
    (s.step a).CompletionsOwn ↔ s.FinishesCurrent a := by
  rcases completions_step s a with ⟨hsame, hcurrent⟩ | ⟨task, t, rfl, hidle, htask, hnew⟩
  · refine ⟨fun _ => hcurrent, fun _ => ?_⟩
    unfold CompletionsOwn
    rw [hsame]
    exact hown
  · rw [completionsOwn_concat hown hnew]
    unfold FinishesCurrent
    rw [hidle]
    dsimp only
    rw [htask]
    cases hclient : s.tracker.client t.clientKey with
    | none =>
      have hnot : t.clientKey ∉ s.tracker.clients := AList.lookup_eq_none.1 hclient
      exact ⟨fun _ t' ht' hin => by cases Option.mem_some.1 ht'; exact absurd hin hnot, fun _ c hc => by cases hc⟩
    | some client =>
      have hin : t.clientKey ∈ s.tracker.clients := AList.lookup_isSome.1 (Option.isSome_of_eq_some hclient)
      have hlast := (hinv.consistent.live _ client hclient).2.2
      constructor
      · rintro hc t' ht' -
        cases Option.mem_some.1 ht'
        rw [hlast, hc client.connectionId rfl]
      · intro hcurrent c hc
        have heq := hcurrent t rfl hin
        rw [hlast] at heq
        cases Option.mem_some.1 hc
        exact Option.some.inj heq

/-- **Every task that finishes closes only its own connection, throughout a run,
exactly when each of them is the last one of its key or finds no client there.** -/
theorem completions_own_iff (actions : List ReaderAction) :
    Always step CompletionsOwn {} actions ↔ Along step FinishesCurrent {} actions := by
  have hstep : ∀ s a, s.Invariant ∧ s.CompletionsOwn →
      ((step s a).Invariant ∧ (step s a).CompletionsOwn ↔ s.FinishesCurrent a) :=
    fun s a h => ⟨fun hnext => (completionsOwn_step h.1 h.2 a).1 hnext.2,
      fun hcurrent => ⟨h.1.step a, (completionsOwn_step h.1 h.2 a).2 hcurrent⟩⟩
  have hstart : ({} : Reader).Invariant ∧ ({} : Reader).CompletionsOwn :=
    ⟨invariant_run [], fun _ hdone => absurd hdone List.not_mem_nil⟩
  rw [← always_iff_along hstep hstart actions]
  exact ⟨fun h before hb => ⟨invariant_run before, h before hb⟩, fun h before hb => (h before hb).2⟩

/-- A client starts twice on one stream, and then the first connection's task is found to have finished. -/
def staleTaskRun : List ReaderAction :=
  [.handle (exampleStart 1) 0 [], .forwarded true 0, .forwarded true 0, .handle (exampleStart 2) 0 [], .closeSent 0 true,
    .forwarded true 0, .forwarded true 0, .finished 0 true]

/-- The first connection's task closes the second connection. -/
theorem stale_task_closes_newer :
    (run step {} staleTaskRun).completions = [{ spawnedFor := 0, closed := some 1 }] ∧
      ¬ Always step CompletionsOwn {} staleTaskRun := by
  have hcompletions : (run step {} staleTaskRun).completions = [{ spawnedFor := 0, closed := some 1 }] := by rfl
  refine ⟨hcompletions, fun h => ?_⟩
  have heq := h staleTaskRun (List.prefix_refl _) { spawnedFor := 0, closed := some 1 } (by rw [hcompletions]; simp) 1 rfl
  cases heq

end Reader

end Codex.RemoteControl
