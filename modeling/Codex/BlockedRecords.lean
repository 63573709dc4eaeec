/-
What becomes of the blocked requests a proxy records. A state that is put in place of another should
carry over what the other then holds, and two kinds of step do not. `force_reload` copies the buffer
and leaves the counter of the state it loads; `reload_if_needed` and the domain
edits write back a buffer they read one await earlier, and a request recorded
in between is gone.

Source: network-proxy/src/runtime.rs.
-/
import Codex.NetworkProxyState

namespace Codex.NetworkProxy

open BoundedQueue Runs

variable {Hook : Type}

namespace Proxy

/-- A proxy with a state as it is built: nothing is recorded yet. -/
def start (state : ConfigState Hook) : Proxy Hook := launch { state with blocked := [], blockedTotal := 0 }

/-- The counter is the number of requests recorded so far, and the buffer is the last 200 of them. -/
def Kept (s : Proxy Hook) : Prop :=
  s.state.blockedTotal = s.recorded.length ∧ s.state.blocked = s.recorded.rtake maxBlockedEvents

/-- The buffer and the counter of a new state are the ones in place. -/
def Carries (s : Proxy Hook) (state : ConfigState Hook) : Prop :=
  state.blocked = s.state.blocked ∧ state.blockedTotal = s.state.blockedTotal

/-- What a task must find in the state when it gets its lock, to keep the records. -/
def KeepsRecords (s : Proxy Hook) (t : Task Hook) : Prop :=
  match t.stage, t.call with
  | .reloadWrite state, _ => s.Carries state
  | .forceWrite state, _ => state.blockedTotal = s.state.blockedTotal
  | .domainWrite previous constraints state, .edit _ =>
    s.state.constraints = constraints ∧ s.state.config = previous → s.Carries state
  | .ready, .recordBlocked _ => s.state.blockedTotal < u64Max
  | _, _ => True

def StepKeepsRecords (s : Proxy Hook) : Action Hook → Prop
  | .proceed i _ => ∀ t, s.tasks[i]? = some t → s.KeepsRecords t
  | _ => True

variable {s s' : Proxy Hook}

/-- A step that records nothing keeps the records exactly when it leaves buffer and counter as they are. -/
theorem kept_iff_carries (h : s.Kept) (hrec : s'.recorded = s.recorded) : s'.Kept ↔ s.Carries s'.state := by
  unfold Kept Carries
  rw [hrec, ← h.1, ← h.2]
  exact and_comm

theorem kept_iff_of_same (h : s.Kept) (hrec : s'.recorded = s.recorded) (hstate : s'.state = s.state) {C : Prop} (hC : C) :
    s'.Kept ↔ C := by
  rw [kept_iff_carries h hrec, hstate]
  exact iff_of_true ⟨rfl, rfl⟩ hC

theorem kept_record (h : s.Kept) (entry : BlockedRequest) : (s.record entry).Kept ↔ s.state.blockedTotal < u64Max := by
  unfold Kept record
  dsimp only
  rw [popOver_eq_rtake, h.2, rtake_rtake_append, h.1, List.length_append, List.length_singleton]
  constructor
  · rintro ⟨htotal, -⟩
    omega
  · intro hlt
    exact ⟨by omega, rfl⟩

variable (L : Libraries Hook)

theorem kept_readDomainList (h : s.Kept) (i : Nat) (t : Task Hook) (host : Text) (target : DomainListKind)
    (mitm : Except Text Unit) : (s.readDomainList L i t host target mitm).Kept := by
  refine (kept_iff_of_same (C := True) h ?_ ?_ trivial).2 trivial <;> unfold readDomainList <;> dsimp only <;> split <;>
    (try rfl) <;> split <;> (try rfl) <;> split <;> rfl

theorem kept_readMode (h : s.Kept) (i : Nat) (t : Task Hook) (mode : NetworkMode) : (s.readMode L i t mode).Kept := by
  refine (kept_iff_of_same (C := True) h ?_ ?_ trivial).2 trivial <;> unfold readMode <;> split <;> rfl

theorem kept_reloaderAnswers (h : s.Kept) (i : Nat) (t : Task Hook) (answer : Except Text (Option (ConfigState Hook))) :
    (s.reloaderAnswers i t answer).Kept := by
  refine (kept_iff_of_same (C := True) h ?_ ?_ trivial).2 trivial <;> unfold reloaderAnswers <;> split <;>
    (try rfl) <;> split <;> rfl

variable [DecidableEq Hook]

theorem kept_proceed (h : s.Kept) (i : Nat) (t : Task Hook) (mitm : Except Text Unit) :
    (s.proceed L i t mitm).Kept ↔ s.KeepsRecords t := by
  obtain ⟨call, stage⟩ := t
  cases stage with
  | ready =>
    cases call with
    | edit edit =>
      cases edit with
      | updateDomainList host target => exact iff_of_true (kept_readDomainList L h i _ host target mitm) trivial
      | setNetworkMode mode => exact iff_of_true (kept_readMode L h i _ mode) trivial
    | recordBlocked entry => exact kept_record h entry
    | replaceConfigState state =>
      unfold proceed proceedReady
      dsimp only
      split
      · exact iff_of_true ((kept_iff_carries h rfl).2 ⟨rfl, rfl⟩) trivial
      · exact iff_of_true h trivial
    | forceReload | reloadIfNeeded => exact iff_of_true h trivial
  | reloadWrite state => exact kept_iff_carries h rfl
  | forceWrite state =>
    refine Iff.trans (kept_iff_carries h ?_) ⟨fun hc => hc.2, fun heq => ⟨rfl, heq⟩⟩
    rfl
  | domainWrite previous constraints state =>
    cases call with
    | edit edit =>
      unfold proceed writeDomain KeepsRecords
      dsimp only
      split
      next hne =>
        refine iff_of_true h fun heq => ?_
        rcases hne with hne | hne
        · exact absurd heq.1 hne
        · exact absurd heq.2 hne
      next hsame =>
        obtain ⟨hcons, hconf⟩ := not_or.1 hsame
        refine Iff.trans (kept_iff_carries h ?_) ⟨fun hc _ => hc, fun hc => hc ⟨not_not.1 hcons, not_not.1 hconf⟩⟩
        rfl
    | recordBlocked | replaceConfigState | forceReload | reloadIfNeeded => exact iff_of_true h trivial
  | modeWrite constraints =>
    cases call with
    | edit edit =>
      unfold proceed writeMode KeepsRecords
      dsimp only
      split
      · exact iff_of_true h trivial
      · exact iff_of_true ((kept_iff_carries h rfl).2 ⟨rfl, rfl⟩) trivial
    | recordBlocked | replaceConfigState | forceReload | reloadIfNeeded => exact iff_of_true h trivial
  | reloadRead state | observing | maybeReload | reloadNow | finished result => exact iff_of_true h trivial

theorem kept_step (h : s.Kept) (a : Action Hook) : (step L s a).Kept ↔ s.StepKeepsRecords a := by
  cases a with
  | addDomain host target =>
    unfold step
    dsimp only
    split <;> exact iff_of_true h trivial
  | setNetworkMode | recordBlocked | replaceConfigState | forceReload | reloadIfNeeded => exact iff_of_true h trivial
  | reloaderAnswers i answer =>
    unfold step
    dsimp only
    split
    · exact iff_of_true h trivial
    · exact iff_of_true (kept_reloaderAnswers h i _ answer) trivial
  | proceed i mitm =>
    unfold step StepKeepsRecords
    dsimp only
    split
    next hnone => exact iff_of_true h fun t ht => by rw [hnone] at ht; cases ht
    next t ht =>
      rw [kept_proceed L h]
      refine ⟨fun hk u hu => ?_, fun hk => hk t ht⟩
      rw [ht] at hu
      cases hu
      exact hk

/-- **When no recorded request is lost**: exactly when every state put in place carries the buffer and the counter
that were there. -/
theorem records_kept_iff (state : ConfigState Hook) (actions : List (Action Hook)) :
    Always (step L) Kept (start state) actions ↔ Along (step L) StepKeepsRecords (start state) actions :=
  always_iff_along (fun _ a h => kept_step L h a) (by unfold Kept start launch; exact ⟨rfl, (List.rtake_nil _).symm⟩) actions

/-- One request is recorded, and then the configuration is reloaded. -/
def recordThenReload (entry : BlockedRequest) (state : ConfigState Unit) : List (Action Unit) :=
  [.recordBlocked entry none, .reloaderAnswers 0 (.ok none), .proceed 0 (.ok ()), .proceed 0 (.ok ()),
    .forceReload, .proceed 1 (.ok ()), .reloaderAnswers 1 (.ok (some state)), .proceed 1 (.ok ())]

def someRequest : BlockedRequest :=
  { host := ['a'], reason := ['n'], client := none, method := none, mode := none, protocol := ['h'], executionId := none,
    decision := none, source := none, port := none, timestamp := 0 }

def emptyState : ConfigState Unit := { config := {}, allowSet := ⟨[]⟩, denySet := ⟨[]⟩, constraints := {} }

/-- A reload forgets the count of the requests that are still in the buffer. -/
theorem forceReload_forgets_total :
    ¬ ∀ actions : List (Action Unit), Always (step plainLibraries) Kept (start emptyState) actions := by
  intro h
  have hlast := (h (recordThenReload someRequest emptyState) _ (List.prefix_refl _)).1
  revert hlast
  decide +kernel

end Proxy

end Codex.NetworkProxy
