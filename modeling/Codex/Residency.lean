/-
The residency of agents: the loaded threads in a queue, the least recently used
first, and the slots given out for threads that are being loaded. A caller that
finds no room pops the first thread of the queue, looks whether it can be
unloaded, and tries again when it was.

A caller may be held up at every lock and at every await, and others take their steps
between.

Source: core/src/agent/control/residency.rs (V2Residency, V2ResidencySlot).
-/
import Codex.AgentRegistry

namespace Codex.Residency

open Agents (ThreadId)
open Runs FiniteMaps

abbrev CallerId := Nat

structure V2ResidencyState where
  residents : List ThreadId := []
  pendingSlots : Nat := 0
  deriving DecidableEq

namespace V2ResidencyState

/-- The slots in use. A capacity is a `usize`, so that it compares with the source's saturating
sum as it does with this one. -/
def used (s : V2ResidencyState) : Nat := s.residents.length + s.pendingSlots

def tryReservePendingSlot (s : V2ResidencyState) (capacity : Nat) : Option V2ResidencyState :=
  if s.used ≥ capacity then none else some { s with pendingSlots := s.pendingSlots + 1 }

/-- The scan of `pop_lru_candidate`: the protected thread goes to the back. -/
def popCandidate (protectedThreadId : Option ThreadId) : Nat → List ThreadId → Option ThreadId × List ThreadId
  | 0, residents => (none, residents)
  | _ + 1, [] => (none, [])
  | scan + 1, candidate :: residents =>
    if some candidate = protectedThreadId then popCandidate protectedThreadId scan (residents ++ [candidate])
    else (some candidate, residents)

def popLruCandidate (s : V2ResidencyState) (protectedThreadId : Option ThreadId) : Option ThreadId × V2ResidencyState :=
  let popped := popCandidate protectedThreadId s.residents.length s.residents
  (popped.1, { s with residents := popped.2 })

def touchResident (residents : List ThreadId) (threadId : ThreadId) : List ThreadId :=
  (residents.filter fun resident => resident != threadId) ++ [threadId]

def touch (s : V2ResidencyState) (threadId : ThreadId) : V2ResidencyState :=
  { s with residents := touchResident s.residents threadId }

def remove (s : V2ResidencyState) (threadId : ThreadId) : V2ResidencyState :=
  { s with residents := s.residents.filter fun resident => resident != threadId }

def releasePendingSlot (s : V2ResidencyState) : V2ResidencyState := { s with pendingSlots := s.pendingSlots - 1 }

def commitSlot (s : V2ResidencyState) (threadId : ThreadId) : V2ResidencyState := s.releasePendingSlot.touch threadId

end V2ResidencyState

/-! ## The callers -/

/-- Where a caller of `reserve_slot` is: before the next try, before the count of the residents, before the next pop,
waiting to hear about a candidate, or done. -/
inductive Phase where
  | reserving (protectedThreadId : Option ThreadId)
  | counting (protectedThreadId : Option ThreadId)
  | scanning (protectedThreadId : Option ThreadId) (left : Nat)
  | examining (protectedThreadId : Option ThreadId) (left : Nat) (candidate : ThreadId)
  | holding
  | refused
  deriving DecidableEq

/-- What the awaits on a candidate come to: it is no resident thread (any more); it is busy, or
its shutdown failed; it was shut down and removed. -/
inductive Answer where
  | gone
  | kept
  | unloaded
  deriving DecidableEq

inductive Action where
  | reserveSlot (caller : CallerId) (protectedThreadId : Option ThreadId)
  | proceed (caller : CallerId)
  | examined (caller : CallerId) (answer : Answer)
  | commit (caller : CallerId) (threadId : ThreadId)
  /-- The slot is dropped, or the call is, at an await. -/
  | drop (caller : CallerId)
  | remove (threadId : ThreadId)
  | touch (threadId : ThreadId)

structure World where
  residency : V2ResidencyState := {}
  callers : AList fun _ : CallerId => Phase := ∅

/-- From one lock to the next, up to an await. -/
def proceed (capacity : Nat) (residency : V2ResidencyState) : Phase → V2ResidencyState × Phase
  | .reserving protectedThreadId =>
    match residency.tryReservePendingSlot capacity with
    | some residency => (residency, .holding)
    | none => (residency, .counting protectedThreadId)
  | .counting protectedThreadId => (residency, .scanning protectedThreadId residency.residents.length)
  | .scanning _ 0 => (residency, .refused)
  | .scanning protectedThreadId (left + 1) =>
    match residency.popLruCandidate protectedThreadId with
    | (none, residency) => (residency, .refused)
    | (some candidate, residency) => (residency, .examining protectedThreadId left candidate)
  | phase => (residency, phase)

def examined (residency : V2ResidencyState) (answer : Answer) : Phase → V2ResidencyState × Phase
  | .examining protectedThreadId left candidate =>
    match answer with
    | .gone => (residency, .scanning protectedThreadId left)
    | .kept => (residency.touch candidate, .scanning protectedThreadId left)
    | .unloaded => (residency, .reserving protectedThreadId)
  | phase => (residency, phase)

def World.setCaller (w : World) (caller : CallerId) (next : V2ResidencyState × Phase) : World where
  residency := next.1
  callers := w.callers.insert caller next.2

def step (capacity : Nat) (w : World) : Action → World
  | .reserveSlot caller protectedThreadId =>
    match w.callers.lookup caller with
    | some _ => w
    | none => w.setCaller caller (w.residency, .reserving protectedThreadId)
  | .proceed caller =>
    match w.callers.lookup caller with
    | some phase => w.setCaller caller (proceed capacity w.residency phase)
    | none => w
  | .examined caller answer =>
    match w.callers.lookup caller with
    | some phase => w.setCaller caller (examined w.residency answer phase)
    | none => w
  | .commit caller threadId =>
    match w.callers.lookup caller with
    | some .holding => { residency := w.residency.commitSlot threadId, callers := w.callers.erase caller }
    | _ => w
  | .drop caller =>
    match w.callers.lookup caller with
    | some .holding => { residency := w.residency.releasePendingSlot, callers := w.callers.erase caller }
    | some _ => { w with callers := w.callers.erase caller }
    | none => w
  | .remove threadId => { w with residency := w.residency.remove threadId }
  | .touch threadId => { w with residency := w.residency.touch threadId }

def start : World := {}

/-! ## The queue -/

namespace V2ResidencyState

variable {s : V2ResidencyState}

variable (protectedThreadId : Option ThreadId)

/-- The scan takes its candidate out and moves the others. -/
theorem popCandidate_perm (scan : Nat) (residents : List ThreadId) :
    residents.Perm ((popCandidate protectedThreadId scan residents).1.toList ++
      (popCandidate protectedThreadId scan residents).2) := by
  induction scan generalizing residents with
  | zero => exact .refl residents
  | succ scan ih =>
    cases residents with
    | nil => exact .refl []
    | cons candidate residents =>
      unfold popCandidate
      split
      next => exact (List.perm_append_singleton candidate residents).symm.trans (ih _)
      next => exact .refl _

theorem popLruCandidate_perm :
    s.residents.Perm ((s.popLruCandidate protectedThreadId).1.toList ++ (s.popLruCandidate protectedThreadId).2.residents) :=
  popCandidate_perm protectedThreadId s.residents.length s.residents

theorem nodup_popLruCandidate (h : s.residents.Nodup) (protectedThreadId : Option ThreadId) :
    (s.popLruCandidate protectedThreadId).2.residents.Nodup :=
  ((popLruCandidate_perm protectedThreadId).nodup_iff.1 h).of_append_right

theorem used_popLruCandidate : (s.popLruCandidate protectedThreadId).2.used ≤ s.used := by
  have hlength := (popLruCandidate_perm (s := s) protectedThreadId).length_eq
  rw [List.length_append] at hlength
  show (s.popLruCandidate protectedThreadId).2.residents.length + s.pendingSlots ≤ s.residents.length + s.pendingSlots
  omega

/-- A thread has a place when it is in the queue, or there is one free. -/
def HasPlace (s : V2ResidencyState) (capacity : Nat) (threadId : ThreadId) : Prop :=
  threadId ∈ s.residents ∨ s.used < capacity

theorem nodup_touch (h : s.residents.Nodup) (threadId : ThreadId) : (s.touch threadId).residents.Nodup := by
  show (touchResident s.residents threadId).Nodup
  unfold touchResident
  rw [List.nodup_append]
  refine ⟨h.filter _, List.nodup_singleton _, fun resident hresident other hother => ?_⟩
  rw [List.mem_singleton.1 hother]
  exact bne_iff_ne.1 (List.mem_filter.1 hresident).2

theorem length_touch_mem (hnodup : s.residents.Nodup) {threadId} (h : threadId ∈ s.residents) :
    (s.touch threadId).residents.length = s.residents.length := by
  have herase := List.length_erase_of_mem h
  have hpos := List.length_pos_of_mem h
  rw [hnodup.erase_eq_filter] at herase
  show (touchResident s.residents threadId).length = s.residents.length
  rw [touchResident, List.length_append, List.length_singleton, herase]
  omega

theorem length_touch_new {threadId} (h : threadId ∉ s.residents) :
    (s.touch threadId).residents.length = s.residents.length + 1 := by
  show (touchResident s.residents threadId).length = s.residents.length + 1
  rw [touchResident, List.length_append, List.filter_eq_self.2]
  · rfl
  · intro resident hresident
    exact bne_iff_ne.2 fun heq => h (heq ▸ hresident)

/-- A touch keeps the bound exactly where the thread has a place. -/
theorem used_touch (hnodup : s.residents.Nodup) {capacity : Nat} (h : s.used ≤ capacity) (threadId : ThreadId) :
    (s.touch threadId).used ≤ capacity ↔ s.HasPlace capacity threadId := by
  have hpending : (s.touch threadId).pendingSlots = s.pendingSlots := rfl
  unfold HasPlace
  unfold used at h ⊢
  by_cases hmem : threadId ∈ s.residents
  · rw [length_touch_mem hnodup hmem]
    exact ⟨fun _ => .inl hmem, fun _ => h⟩
  · rw [length_touch_new hmem]
    constructor
    · intro hbound
      omega
    · rintro (hin | hroom)
      · exact absurd hin hmem
      · omega

theorem used_commitSlot (hnodup : s.residents.Nodup) {capacity : Nat} (h : s.used ≤ capacity) (hpending : 0 < s.pendingSlots)
    (threadId : ThreadId) : (s.commitSlot threadId).used ≤ capacity := by
  have hreleased : s.releasePendingSlot.used + 1 = s.used := by
    show s.residents.length + (s.pendingSlots - 1) + 1 = s.residents.length + s.pendingSlots
    omega
  have hroom : s.releasePendingSlot.used < capacity := by omega
  have hplace := used_touch (s := s.releasePendingSlot) hnodup hroom.le threadId
  exact hplace.2 (.inr hroom)

end V2ResidencyState

/-! ## What every step keeps -/

def Phase.slots : Phase → Nat
  | .holding => 1
  | _ => 0

/-- The queue repeats no thread, and each pending slot is a caller's. -/
structure Accounted (w : World) : Prop where
  nodup : w.residency.residents.Nodup
  pending : w.residency.pendingSlots = tally (fun _ phase => phase.slots) w.callers

def Bounded (capacity : Nat) (w : World) : Prop := w.residency.used ≤ capacity ∧ w.residency.residents.Nodup

def Phase.putBack : Phase → Answer → Option ThreadId
  | .examining _ _ candidate, .kept => some candidate
  | _, _ => none

/-- The thread that an action puts back in the queue: a candidate that is kept, or one touched
from outside. -/
def putBack (w : World) : Action → Option ThreadId
  | .examined caller answer => (w.callers.lookup caller).bind fun phase => phase.putBack answer
  | .touch threadId => some threadId
  | _ => none

def Room (capacity : Nat) (w : World) (a : Action) : Prop :=
  ∀ threadId, putBack w a = some threadId → w.residency.HasPlace capacity threadId

variable {residency : V2ResidencyState} {caller : CallerId}

/-- From lock to lock the queue gets no longer, but for the slot a caller takes. -/
theorem proceed_spec (capacity : Nat) (hnodup : residency.residents.Nodup) (phase : Phase) :
    (proceed capacity residency phase).1.residents.Nodup ∧
      (proceed capacity residency phase).1.pendingSlots + phase.slots =
        residency.pendingSlots + (proceed capacity residency phase).2.slots ∧
      (residency.used ≤ capacity → (proceed capacity residency phase).1.used ≤ capacity) := by
  cases phase with
  | reserving protectedThreadId =>
    unfold proceed
    dsimp only
    split
    next reserved hreserved =>
      unfold V2ResidencyState.tryReservePendingSlot at hreserved
      split at hreserved
      next => cases hreserved
      next hroom =>
        obtain rfl := Option.some.inj hreserved
        refine ⟨hnodup, rfl, fun _ => ?_⟩
        unfold V2ResidencyState.used at hroom ⊢
        dsimp only
        omega
    next => exact ⟨hnodup, rfl, id⟩
  | scanning protectedThreadId left =>
    cases left with
    | zero => exact ⟨hnodup, rfl, id⟩
    | succ left =>
      have hpopped := residency.nodup_popLruCandidate hnodup protectedThreadId
      have hused := residency.used_popLruCandidate protectedThreadId
      have hpending : (residency.popLruCandidate protectedThreadId).2.pendingSlots = residency.pendingSlots := rfl
      unfold proceed
      dsimp only
      split
      next residency' heq =>
        rw [heq] at hpopped hused hpending
        exact ⟨hpopped, congrArg (· + 0) hpending, hused.trans⟩
      next candidate residency' heq =>
        rw [heq] at hpopped hused hpending
        exact ⟨hpopped, congrArg (· + 0) hpending, hused.trans⟩
  | counting | examining | holding | refused => exact ⟨hnodup, rfl, id⟩

theorem examined_spec (hnodup : residency.residents.Nodup) (answer : Answer) (phase : Phase) :
    (examined residency answer phase).1.residents.Nodup ∧
      (examined residency answer phase).1.pendingSlots + phase.slots =
        residency.pendingSlots + (examined residency answer phase).2.slots := by
  cases phase with
  | examining protectedThreadId left candidate =>
    cases answer with
    | gone | unloaded => exact ⟨hnodup, rfl⟩
    | kept => exact ⟨V2ResidencyState.nodup_touch hnodup candidate, rfl⟩
  | reserving | counting | scanning | holding | refused => exact ⟨hnodup, rfl⟩

/-- An answer keeps the bound exactly where the candidate it puts back has a place. -/
theorem used_examined {capacity : Nat} {residency} (hnodup : residency.residents.Nodup)
    (hused : residency.used ≤ capacity) (answer : Answer) (phase : Phase) :
    (examined residency answer phase).1.used ≤ capacity ↔
      ∀ threadId, phase.putBack answer = some threadId → residency.HasPlace capacity threadId := by
  cases phase with
  | examining protectedThreadId left candidate =>
    cases answer with
    | gone | unloaded => exact ⟨fun _ threadId hback => absurd hback nofun, fun _ => hused⟩
    | kept =>
      have hplace := V2ResidencyState.used_touch hnodup hused candidate
      constructor
      · rintro hbound _ ⟨⟩
        exact hplace.1 hbound
      · intro hroom
        exact hplace.2 (hroom candidate rfl)
  | reserving | counting | scanning | holding | refused => exact ⟨fun _ threadId hback => absurd hback nofun, fun _ => hused⟩

namespace Accounted

variable {w : World}

/-- A caller goes on with as many slots more as its new phase has. -/
theorem setCaller (h : Accounted w) {phase} (hcaller : w.callers.lookup caller = some phase)
    {next} (hnodup : next.1.residents.Nodup)
    (hslots : next.1.pendingSlots + phase.slots = w.residency.pendingSlots + next.2.slots) :
    Accounted (w.setCaller caller next) := by
  refine ⟨hnodup, ?_⟩
  have htally := tally_insert_old (f := fun (_ : CallerId) (phase : Phase) => phase.slots) hcaller next.2
  have hpending := h.pending
  show next.1.pendingSlots = tally (fun _ phase => phase.slots) (w.callers.insert caller next.2)
  omega

theorem leave (h : Accounted w) {phase} (hcaller : w.callers.lookup caller = some phase)
    (hnodup : residency.residents.Nodup)
    (hslots : residency.pendingSlots = w.residency.pendingSlots - phase.slots) :
    Accounted { residency, callers := w.callers.erase caller } := by
  refine ⟨hnodup, ?_⟩
  have htally := tally_erase (f := fun (_ : CallerId) (phase : Phase) => phase.slots) hcaller
  have hpending := h.pending
  dsimp only at htally ⊢
  omega

theorem pending_pos (h : Accounted w) (hcaller : w.callers.lookup caller = some .holding) :
    0 < w.residency.pendingSlots := by
  have hle : (Phase.holding).slots ≤ _ := le_tally (f := fun (_ : CallerId) (phase : Phase) => phase.slots) hcaller
  rw [h.pending]
  exact hle

theorem step (h : Accounted w) (capacity : Nat) (a : Action) : Accounted (step capacity w a) := by
  cases a with
  | reserveSlot caller protectedThreadId =>
    unfold Residency.step
    dsimp only
    split
    next => exact h
    next hnone =>
      refine ⟨h.nodup, ?_⟩
      show w.residency.pendingSlots = tally (fun _ phase => phase.slots) (w.callers.insert caller (.reserving protectedThreadId))
      rw [tally_insert_new hnone, ← h.pending]
      exact (Nat.zero_add _).symm
  | proceed caller =>
    unfold Residency.step
    dsimp only
    split
    next phase hcaller =>
      obtain ⟨hnodup, hslots, -⟩ := proceed_spec capacity h.nodup phase
      exact h.setCaller hcaller hnodup hslots
    next => exact h
  | examined caller answer =>
    unfold Residency.step
    dsimp only
    split
    next phase hcaller =>
      obtain ⟨hnodup, hslots⟩ := examined_spec h.nodup answer phase
      exact h.setCaller hcaller hnodup hslots
    next => exact h
  | commit caller threadId =>
    unfold Residency.step
    dsimp only
    split
    next hcaller =>
      have hnodup := V2ResidencyState.nodup_touch (s := w.residency.releasePendingSlot) h.nodup threadId
      exact h.leave hcaller hnodup rfl
    next => exact h
  | drop caller =>
    unfold Residency.step
    dsimp only
    split
    next hcaller => exact h.leave hcaller h.nodup rfl
    next phase hother hcaller =>
      have hnone : phase.slots = 0 := by
        cases phase with
        | holding => exact absurd rfl hother
        | reserving | counting | scanning | examining | refused => rfl
      exact h.leave hcaller h.nodup (by rw [hnone]; rfl)
    next => exact h
  | remove threadId => exact ⟨h.nodup.filter _, h.pending⟩
  | touch threadId => exact ⟨V2ResidencyState.nodup_touch h.nodup threadId, h.pending⟩

end Accounted

theorem room_of_none {capacity : Nat} {w a} (h : putBack w a = none) : Room capacity w a := by
  intro threadId hback
  rw [h] at hback
  cases hback

/-- A step keeps the bound exactly where what it puts back has a place. -/
theorem used_step {capacity : Nat} {w} (h : Accounted w) (hused : w.residency.used ≤ capacity) (a : Action) :
    (step capacity w a).residency.used ≤ capacity ↔ Room capacity w a := by
  cases a with
  | reserveSlot caller protectedThreadId =>
    refine iff_of_true ?_ (room_of_none rfl)
    unfold step
    dsimp only
    split
    next => exact hused
    next => exact hused
  | proceed caller =>
    refine iff_of_true ?_ (room_of_none rfl)
    unfold step
    dsimp only
    split
    next phase hcaller => exact (proceed_spec capacity h.nodup phase).2.2 hused
    next => exact hused
  | examined caller answer =>
    unfold step Room putBack
    dsimp only
    split
    next phase hcaller =>
      rw [hcaller]
      exact used_examined h.nodup hused answer phase
    next hcaller =>
      rw [hcaller]
      exact ⟨fun _ threadId hback => absurd hback nofun, fun _ => hused⟩
  | commit caller threadId =>
    refine iff_of_true ?_ (room_of_none rfl)
    unfold step
    dsimp only
    split
    next hcaller => exact V2ResidencyState.used_commitSlot h.nodup hused (h.pending_pos hcaller) threadId
    next => exact hused
  | drop caller =>
    refine iff_of_true ?_ (room_of_none rfl)
    unfold step
    dsimp only
    split
    next => exact le_trans (Nat.add_le_add_left (Nat.sub_le ..) _) hused
    next => exact hused
    next => exact hused
  | remove threadId =>
    refine iff_of_true ?_ (room_of_none rfl)
    exact le_trans (Nat.add_le_add_right (List.length_filter_le ..) _) hused
  | touch threadId =>
    have hplace := V2ResidencyState.used_touch h.nodup hused threadId
    constructor
    · rintro hbound _ ⟨⟩
      exact hplace.1 hbound
    · intro hroom
      exact hplace.2 (hroom threadId rfl)

theorem accounted_start : Accounted start := ⟨List.nodup_nil, rfl⟩

/-- **The queue and the slots stay within the capacity, and the queue repeats no
thread, exactly as long as every thread put back has a place.** -/
theorem bounded_iff_room (capacity : Nat) (actions : List Action) :
    Always (step capacity) (Bounded capacity) start actions ↔ Along (step capacity) (Room capacity) start actions := by
  have hsound : ∀ w a, Accounted w ∧ Bounded capacity w →
      ((Accounted (step capacity w a) ∧ Bounded capacity (step capacity w a)) ↔ Room capacity w a) := by
    rintro w a ⟨haccounted, hused, -⟩
    have hnext := haccounted.step capacity a
    rw [← used_step haccounted hused a]
    exact ⟨fun h => h.2.1, fun h => ⟨hnext, h, hnext.nodup⟩⟩
  have hstart : Accounted start ∧ Bounded capacity start := ⟨accounted_start, Nat.zero_le capacity, List.nodup_nil⟩
  rw [← always_iff_along hsound hstart]
  constructor
  · intro h before hbefore
    have haccounted := run_invariant (P := Accounted) (fun w a hw => hw.step capacity a) accounted_start before
    exact ⟨haccounted, h before hbefore⟩
  · intro h before hbefore
    exact (h before hbefore).2

/-- While the first caller looks at the one resident, the second takes the room it left. -/
def crossedActions : List Action :=
  [.reserveSlot 0 none, .proceed 0, .commit 0 7,
    .reserveSlot 1 none, .proceed 1, .proceed 1, .proceed 1,
    .reserveSlot 2 none, .proceed 2,
    .examined 1 .kept]

/-- The thread that is kept comes back to a full queue. -/
theorem crossed_not_bounded : ¬ Always (step 1) (Bounded 1) start crossedActions :=
  fun h => absurd (h crossedActions List.prefix_rfl).1 (by decide)

end Codex.Residency
