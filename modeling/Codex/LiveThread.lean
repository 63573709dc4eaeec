/-
Clones of one `LiveThread` (`thread-store/src/live_thread.rs`) whose calls
interleave at their await points. Each call of `append_items`, `persist` or
`flush` is a sequence of store calls and of locked sections of the metadata sync;
an action runs one call to its next await.

The store keeps the patches it is given merged (`InMemoryThreadStore`), and its
calls succeed. How many patches a call had seen when it took the pending one,
and how many of them the store has seen, are recorded for the proof only.
-/
import Codex.MetadataSync
import Mathlib.Logic.Function.Basic

namespace Codex.Metadata

/-! ## Calls -/

inductive Call (K : Kinds) where
  | append (rawItems : List (RolloutItem K))
  | persist
  | flush

/-- Where a call is: `stored` is about to observe its items, `flushing` is about to take what is pending; `applying` and
`marking` hold a snapshot, and how many patches had been observed when it was taken. -/
inductive CallPc (K : Kinds) where
  | ready
  | stored (items : List (RolloutItem K))
  | flushing
  | applying (update : PendingThreadMetadataPatch K) (seen : Nat)
  | marking (update : PendingThreadMetadataPatch K) (seen : Nat)
  | returned

structure LiveThread (K : Kinds) where
  sync : ThreadMetadataSync K
  /-- The store's `metadata_updates`. -/
  metadata : ThreadMetadataPatch K
  call : Nat → CallPc K
  /-- The patches observed, the one the sync began with first. -/
  observed : List (ThreadMetadataPatch K)
  /-- How many of them the newest snapshot written holds. -/
  written : Nat

namespace LiveThread

variable {K : Kinds}

/-- A thread just created or resumed. -/
def opened (sync : ThreadMetadataSync K) (metadata : ThreadMetadataPatch K) : LiveThread K where
  sync := sync
  metadata := metadata
  call _ := .ready
  observed := sync.pendingUpdate.toList
  written := 0

def setCall (s : LiveThread K) (i : Nat) (pc : CallPc K) : LiveThread K := { s with call := Function.update s.call i pc }

/-- A call that has locked the sync leaves with a snapshot, or with nothing to do. -/
def take (s : LiveThread K) : Option (PendingThreadMetadataPatch K) → CallPc K
  | none => .returned
  | some update => .applying update s.observed.length

section
variable (codecs : Codecs K) (persistedRolloutItems : List (RolloutItem K) → List (RolloutItem K)) (callOf : Nat → Call K)

/-- `persist_appended_items`: nothing is left of an empty append. -/
def persistAppendedItems (rawItems : List (RolloutItem K)) : List (RolloutItem K) :=
  if rawItems.isEmpty then [] else persistedRolloutItems rawItems

/-- The locked section of `append_items`. -/
def observe (s : LiveThread K) (i : Nat) (clock : Clock) (items : List (RolloutItem K)) : LiveThread K :=
  let (sync, update) := s.sync.observeAppendedItems codecs clock items
  let s := { s with
    sync := sync
    observed := s.observed ++ [observedPatch codecs s.sync clock items] }
  s.setCall i (s.take update)

def takePending (s : LiveThread K) : Call K → Option (PendingThreadMetadataPatch K)
  | .flush => s.sync.takePendingUpdateForExistingHistory
  | _ => s.sync.takePendingUpdate

/-- Call `i` runs to its next await. -/
def step (s : LiveThread K) : Nat × Clock → LiveThread K
  | (i, clock) =>
    match s.call i with
    | .ready =>
      match callOf i with
      | .append rawItems =>
        let items := persistAppendedItems persistedRolloutItems rawItems
        s.setCall i (if items.isEmpty then .returned else .stored items)
      | .persist | .flush => s.setCall i .flushing
    | .stored items => s.observe codecs i clock items
    | .flushing => s.setCall i (s.take (s.takePending (callOf i)))
    | .applying update seen =>
      { s.setCall i (.marking update seen) with
        metadata := s.metadata.merge update.patch
        written := max s.written seen }
    | .marking update _ => { s.setCall i .returned with sync := s.sync.markPendingUpdateApplied clock update }
    | .returned => s

def run (s : LiveThread K) (actions : List (Nat × Clock)) : LiveThread K :=
  actions.foldl (step codecs persistedRolloutItems callOf) s

/-- A step that does not write an old snapshot over a newer one, nor acknowledges one so late that
the generation has come round again. -/
def Fresh (s : LiveThread K) (i : Nat) : Prop :=
  match s.call i with
  | .applying update seen => s.written ≤ seen ∨ s.metadata.merge update.patch = s.metadata
  | .marking _ seen => s.observed.length < seen + 2 ^ 64
  | _ => True

def FreshRun (s : LiveThread K) : List (Nat × Clock) → Prop
  | [] => True
  | action :: actions => s.Fresh action.1 ∧ FreshRun (step codecs persistedRolloutItems callOf s action) actions

end

end LiveThread

/-! ## Patches in order -/

/-- Applying again some of what has been applied, and then the rest, is applying it all. -/
theorem prod_take_mul_prod_drop {M : Type} [Monoid M] (hidem : ∀ a : M, a * a = a) (l : List M) {i k : Nat} (hik : i ≤ k) :
    (l.take k).prod * (l.drop i).prod = l.prod := by
  obtain ⟨m, rfl⟩ := Nat.exists_eq_add_of_le hik
  have hrest : (l.drop i).prod = ((l.drop i).take m).prod * ((l.drop i).drop m).prod :=
    (List.prod_take_mul_prod_drop (l.drop i) m).symm
  calc (l.take (i + m)).prod * (l.drop i).prod
      = (l.take i).prod * (((l.drop i).take m).prod * ((l.drop i).take m).prod) * ((l.drop i).drop m).prod := by
        rw [List.take_add, List.prod_append, hrest]
        simp only [mul_assoc]
    _ = (l.take i).prod * (l.drop i).prod := by rw [hidem, mul_assoc, ← hrest]
    _ = l.prod := List.prod_take_mul_prod_drop l i

/-! ## The invariant -/

namespace LiveThread

variable {K : Kinds}

/-- What a call may hold. A snapshot is the merged patches from one the store has yet to see, or
saw last, up to the last observed when it was taken; one to be acknowledged has been written. -/
def CallOk (offset : Nat) (s : LiveThread K) : CallPc K → Prop
  | .applying update seen => seen ≤ s.observed.length ∧ update.generation = (offset + seen) % 2 ^ 64 ∧
    ∃ start ≤ s.written, update.patch = ((s.observed.take seen).drop start).prod
  | .marking update seen => seen ≤ s.written ∧ update.generation = (offset + seen) % 2 ^ 64
  | _ => True

structure Ordered (base : ThreadMetadataPatch K) (offset : Nat) (begun : List (ThreadMetadataPatch K)) (s : LiveThread K) :
    Prop where
  written : s.written ≤ s.observed.length
  metadata : s.metadata = base * (s.observed.take s.written).prod
  nonePending : s.sync.pendingUpdate = none → s.written = s.observed.length
  pending : ∀ patch, s.sync.pendingUpdate = some patch → ∃ start ≤ s.written, patch = (s.observed.drop start).prod
  generation : s.sync.pendingUpdateGeneration = (offset + s.observed.length) % 2 ^ 64
  deferred : s.sync.deferCreateUpdateUntilHistoryExists = true ∨ s.sync.deferResumeUpdateUntilAppend = true →
    s.observed = begun
  calls : ∀ i, s.CallOk offset (s.call i)

/-- More has been observed, or written, than before. -/
structure Grows (s s' : LiveThread K) : Prop where
  observed : ∃ patches, s'.observed = s.observed ++ patches
  written : s.written ≤ s'.written

theorem CallOk.grows {offset : Nat} {s s' : LiveThread K} {pc : CallPc K} (h : s.CallOk offset pc) (hgrows : Grows s s') :
    s'.CallOk offset pc := by
  obtain ⟨⟨patches, hobserved⟩, hwritten⟩ := hgrows
  cases pc with
  | applying update seen =>
    obtain ⟨hseen, hgeneration, start, hstart, hpatch⟩ := h
    refine ⟨?_, hgeneration, start, hstart.trans hwritten, ?_⟩
    · rw [hobserved, List.length_append]
      omega
    · rw [hpatch, hobserved, List.take_append_of_le_length hseen]
  | marking update seen => exact ⟨h.1.trans hwritten, h.2⟩
  | ready | stored | flushing | returned => trivial

namespace Ordered

variable {base : ThreadMetadataPatch K} {offset : Nat} {begun : List (ThreadMetadataPatch K)} {s : LiveThread K}

/-- The other calls keep what they hold while one moves. -/
theorem calls_update (h : Ordered base offset begun s) {s' : LiveThread K} {i : Nat} {pc : CallPc K} (hgrows : Grows s s')
    (hcall : s'.call = Function.update s.call i pc) (hpc : s'.CallOk offset pc) (j : Nat) : s'.CallOk offset (s'.call j) := by
  rw [hcall]
  by_cases hji : j = i
  · rw [hji, Function.update_self]
    exact hpc
  · rw [Function.update_of_ne hji]
    exact (h.calls j).grows hgrows

/-- A call moves, and nothing else. -/
theorem setCall (h : Ordered base offset begun s) {i : Nat} {pc} (hpc : s.CallOk offset pc) :
    Ordered base offset begun (s.setCall i pc) :=
  { h with calls := h.calls_update ⟨⟨[], (List.append_nil _).symm⟩, le_rfl⟩ rfl hpc }

/-- A snapshot taken now holds all that has been observed. -/
theorem take (h : Ordered base offset begun s) {update}
    (hupdate : update = none ∨ update = s.sync.takePendingUpdate) : s.CallOk offset (s.take update) := by
  cases update with
  | none => trivial
  | some update =>
    rcases hupdate with hnone | htake
    · cases hnone
    · obtain ⟨patch, hpending, rfl⟩ := Option.map_eq_some_iff.1 htake.symm
      obtain ⟨start, hstart, hpatch⟩ := h.pending patch hpending
      refine ⟨le_rfl, h.generation, start, hstart, ?_⟩
      rw [List.take_length]
      exact hpatch

theorem takePending_eq (s : LiveThread K) (call : Call K) :
    s.takePending call = none ∨ s.takePending call = s.sync.takePendingUpdate := by
  cases call with
  | append rawItems | persist => exact .inr rfl
  | flush =>
    simp only [takePending, ThreadMetadataSync.takePendingUpdateForExistingHistory]
    split
    · exact .inl rfl
    · split
      · exact .inl rfl
      · exact .inr rfl

theorem observe (h : Ordered base offset begun s) (codecs : Codecs K) (i : Nat) (clock : Clock) (items : List (RolloutItem K)) :
    Ordered base offset begun (s.observe codecs i clock items) := by
  obtain ⟨hpending, hgeneration, hcreate, hresume⟩ := observeAppendedItems_fst codecs s.sync clock items
  let s' : LiveThread K := { s with
    sync := (s.sync.observeAppendedItems codecs clock items).1
    observed := s.observed ++ [observedPatch codecs s.sync clock items] }
  have hgrows : Grows s s' := ⟨⟨_, rfl⟩, le_rfl⟩
  have hordered : Ordered base offset begun s' := by
    refine ⟨?_, ?_, ?_, ?_, ?_, ?_, fun j => (h.calls j).grows hgrows⟩
    · exact h.written.trans (by simp [s'])
    · change s.metadata = _
      rw [h.metadata, List.take_append_of_le_length h.written]
    · intro hnone
      cases hnone
    · intro patch hpatch
      rw [show s'.sync.pendingUpdate = _ from hpending, Option.some.injEq] at hpatch
      cases hprevious : s.sync.pendingUpdate with
      | none =>
        refine ⟨s.observed.length, (h.nonePending hprevious).ge, ?_⟩
        rw [← hpatch, hprevious, List.drop_left, List.prod_singleton, Option.getD_none, one_mul]
      | some previous =>
        obtain ⟨start, hstart, hprod⟩ := h.pending previous hprevious
        refine ⟨start, hstart, ?_⟩
        rw [← hpatch, hprevious, Option.getD_some, hprod, List.drop_append_of_le_length (hstart.trans h.written),
          List.prod_append, List.prod_singleton]
    · change (s.sync.observeAppendedItems codecs clock items).1.pendingUpdateGeneration = _
      rw [hgeneration, h.generation, Nat.mod_add_mod, List.length_append, List.length_singleton, Nat.add_assoc]
    · change (s.sync.observeAppendedItems codecs clock items).1.deferCreateUpdateUntilHistoryExists = true ∨
        (s.sync.observeAppendedItems codecs clock items).1.deferResumeUpdateUntilAppend = true → _
      rw [hcreate, hresume]
      simp
  exact hordered.setCall (hordered.take (observeAppendedItems_snd codecs s.sync clock items))

/-- A snapshot reaches the store, after all that older ones brought. -/
theorem apply (h : Ordered base offset begun s) {i seen : Nat} {update}
    (hcall : s.call i = .applying update seen)
    (hfresh : s.written ≤ seen ∨ s.metadata.merge update.patch = s.metadata) :
    Ordered base offset begun
      { s.setCall i (.marking update seen) with
        metadata := s.metadata.merge update.patch
        written := max s.written seen } := by
  have hok := h.calls i
  rw [hcall] at hok
  obtain ⟨hseen, hgeneration, start, hstart, hpatch⟩ := hok
  have hgrows : Grows s { s.setCall i (.marking update seen) with
      metadata := s.metadata.merge update.patch
      written := max s.written seen } := ⟨⟨[], (List.append_nil _).symm⟩, le_max_left _ _⟩
  refine ⟨max_le h.written hseen, ?_, ?_, ?_, h.generation, h.deferred,
    h.calls_update hgrows rfl ⟨le_max_right _ _, hgeneration⟩⟩
  · change s.metadata.merge update.patch = base * (s.observed.take (max s.written seen)).prod
    by_cases hle : s.written ≤ seen
    · have htake : s.observed.take s.written = (s.observed.take seen).take s.written := by
        rw [List.take_take, min_eq_left hle]
      change s.metadata * update.patch = _
      rw [max_eq_right hle, h.metadata, hpatch, mul_assoc, htake,
        prod_take_mul_prod_drop ThreadMetadataPatch.mul_self _ hstart]
    · rw [hfresh.resolve_left hle, max_eq_left (le_of_not_ge hle), h.metadata]
  · intro hnone
    have hall := h.nonePending hnone
    change max s.written seen = s.observed.length
    omega
  · intro patch hsome
    obtain ⟨start, hstart, hprod⟩ := h.pending patch hsome
    exact ⟨start, hstart.trans (le_max_left _ _), hprod⟩

/-- A snapshot is acknowledged: nothing is pending any more if nothing was observed since. -/
theorem mark (h : Ordered base offset begun s) {i seen : Nat} {update}
    (hcall : s.call i = .marking update seen) (hfresh : s.observed.length < seen + 2 ^ 64) (clock : Clock) :
    Ordered base offset begun
      { s.setCall i .returned with sync := s.sync.markPendingUpdateApplied clock update } := by
  have hok := h.calls i
  rw [hcall] at hok
  obtain ⟨hseen, hgeneration⟩ := hok
  refine ⟨h.written, h.metadata, ?_, ?_, h.generation, h.deferred,
    h.calls_update ⟨⟨[], (List.append_nil _).symm⟩, le_rfl⟩ rfl trivial⟩
  · intro hnone
    by_cases heq : s.sync.pendingUpdateGeneration = update.generation
    · rw [h.generation, hgeneration] at heq
      have hwritten := h.written
      change s.written = s.observed.length
      omega
    · rw [ThreadMetadataSync.markPendingUpdateApplied, if_neg heq] at hnone
      exact h.nonePending hnone
  · intro patch hsome
    apply h.pending patch
    simp only [ThreadMetadataSync.markPendingUpdateApplied] at hsome
    split at hsome
    · cases hsome
    · exact hsome

theorem opened {sync} (metadata : ThreadMetadataPatch K) (hgeneration : sync.pendingUpdateGeneration < 2 ^ 64) :
    Ordered metadata (sync.pendingUpdateGeneration + 2 ^ 64 - sync.pendingUpdate.toList.length) sync.pendingUpdate.toList
      (LiveThread.opened sync metadata) := by
  have hlength : sync.pendingUpdate.toList.length ≤ 1 := by cases sync.pendingUpdate <;> simp
  refine ⟨Nat.zero_le _, ?_, ?_, ?_, ?_, fun _ => rfl, fun i => trivial⟩
  · exact (mul_one metadata).symm
  · intro hnone
    change 0 = sync.pendingUpdate.toList.length
    rw [show sync.pendingUpdate = none from hnone]
    rfl
  · intro patch hsome
    refine ⟨0, le_rfl, ?_⟩
    change patch = (sync.pendingUpdate.toList.drop 0).prod
    rw [show sync.pendingUpdate = some patch from hsome]
    exact (mul_one patch).symm
  · change sync.pendingUpdateGeneration =
      (sync.pendingUpdateGeneration + 2 ^ 64 - sync.pendingUpdate.toList.length + sync.pendingUpdate.toList.length) % 2 ^ 64
    omega

section
variable (codecs : Codecs K) (persistedRolloutItems : List (RolloutItem K) → List (RolloutItem K)) (callOf : Nat → Call K)

/-- **One step.** A fresh step keeps the store a prefix of what has been observed. -/
theorem step (h : Ordered base offset begun s) {action} (hfresh : s.Fresh action.1) :
    Ordered base offset begun (s.step codecs persistedRolloutItems callOf action) := by
  obtain ⟨i, clock⟩ := action
  simp only [Fresh] at hfresh
  simp only [LiveThread.step]
  split
  · split
    · refine h.setCall ?_
      split <;> trivial
    · exact h.setCall trivial
    · exact h.setCall trivial
  · exact h.observe codecs i clock _
  · exact h.setCall (h.take (takePending_eq s (callOf i)))
  · next update seen hcall =>
    rw [hcall] at hfresh
    exact h.apply hcall hfresh
  · next update seen hcall =>
    rw [hcall] at hfresh
    exact h.mark hcall hfresh clock
  · exact h

theorem run (h : Ordered base offset begun s) {actions}
    (hfresh : s.FreshRun codecs persistedRolloutItems callOf actions) :
    Ordered base offset begun (s.run codecs persistedRolloutItems callOf actions) := by
  induction actions generalizing s with
  | nil => exact h
  | cons action actions ih => exact ih (h.step codecs persistedRolloutItems callOf hfresh.1) hfresh.2

end

end Ordered

/-! ## The last flush -/

theorem foldl_merge (base : ThreadMetadataPatch K) (patches : List (ThreadMetadataPatch K)) :
    patches.foldl ThreadMetadataPatch.merge base = base * patches.prod := by
  induction patches generalizing base with
  | nil => exact (mul_one base).symm
  | cons patch patches ih =>
    rw [List.foldl_cons, ih, List.prod_cons, ← mul_assoc]
    rfl

section
variable (codecs : Codecs K) (persistedRolloutItems : List (RolloutItem K) → List (RolloutItem K)) (callOf : Nat → Call K)

/-- A flush from its start to its end, with no other call under way. -/
def flushAlone (s : LiveThread K) (i : Nat) (clock : Clock) : LiveThread K :=
  s.run codecs persistedRolloutItems callOf [(i, clock), (i, clock), (i, clock), (i, clock)]

variable {codecs persistedRolloutItems callOf} {s : LiveThread K} {i : Nat}

/-- It writes what it takes, or finds nothing to take. -/
theorem flushAlone_eq (hcall : s.call i = .ready) (hflush : callOf i = .flush) (clock : Clock) :
    (flushAlone codecs persistedRolloutItems callOf s i clock).call i = .returned ∧
    (flushAlone codecs persistedRolloutItems callOf s i clock).observed = s.observed ∧
    (flushAlone codecs persistedRolloutItems callOf s i clock).metadata =
      s.metadata * (s.sync.takePendingUpdateForExistingHistory.map (·.patch)).getD 1 := by
  have hfirst : s.step codecs persistedRolloutItems callOf (i, clock) = s.setCall i .flushing := by
    simp only [step, hcall, hflush]
  have hsecond : (s.setCall i .flushing).step codecs persistedRolloutItems callOf (i, clock) =
      (s.setCall i .flushing).setCall i (s.take s.sync.takePendingUpdateForExistingHistory) := by
    simp only [step, LiveThread.setCall, Function.update_self, hflush]
    rfl
  simp only [flushAlone, run, List.foldl_cons, List.foldl_nil, hfirst, hsecond]
  cases htake : s.sync.takePendingUpdateForExistingHistory with
  | none => simp [step, LiveThread.setCall, take]
  | some update =>
    simp only [step, LiveThread.setCall, take, Function.update_self, Option.map_some, Option.getD_some, true_and]
    rfl

/-- What a flush takes is what the store lacks, unless it is deferred. -/
theorem Ordered.flushed {base} {offset : Nat} {begun} (h : Ordered base offset begun s) :
    s.metadata * (s.sync.takePendingUpdateForExistingHistory.map (·.patch)).getD 1 = base * s.observed.prod ∨
      s.observed = begun ∧ s.sync.takePendingUpdateForExistingHistory = none := by
  by_cases hcreate : s.sync.deferCreateUpdateUntilHistoryExists = true
  · exact .inr ⟨h.deferred (.inl hcreate), if_pos hcreate⟩
  · by_cases hresume : s.sync.deferResumeUpdateUntilAppend = true
    · exact .inr ⟨h.deferred (.inr hresume), (if_neg hcreate).trans (if_pos hresume)⟩
    · have htake : s.sync.takePendingUpdateForExistingHistory = s.sync.takePendingUpdate :=
        (if_neg hcreate).trans (if_neg hresume)
      left
      rw [htake, h.metadata]
      cases hpending : s.sync.pendingUpdate with
      | none => simp [ThreadMetadataSync.takePendingUpdate, hpending, h.nonePending hpending]
      | some patch =>
        obtain ⟨start, hstart, hprod⟩ := h.pending patch hpending
        simp only [ThreadMetadataSync.takePendingUpdate, hpending, Option.map_some, Option.getD_some]
        rw [hprod, mul_assoc, prod_take_mul_prod_drop ThreadMetadataPatch.mul_self _ hstart]

/-- **No update is lost**, in a run whose snapshots reach the store in the order they were taken: one more flush
leaves the store with every observed patch. -/
theorem flush_stores_observed {sync : ThreadMetadataSync K} {metadata : ThreadMetadataPatch K} {actions : List (Nat × Clock)}
    (hgeneration : sync.pendingUpdateGeneration < 2 ^ 64)
    (hfresh : (LiveThread.opened sync metadata).FreshRun codecs persistedRolloutItems callOf actions)
    (hcall : ((LiveThread.opened sync metadata).run codecs persistedRolloutItems callOf actions).call i = .ready)
    (hflush : callOf i = .flush) (clock : Clock) :
    let s := (LiveThread.opened sync metadata).run codecs persistedRolloutItems callOf actions
    let flushed := flushAlone codecs persistedRolloutItems callOf s i clock
    flushed.call i = .returned ∧ flushed.observed = s.observed ∧
      (flushed.metadata = s.observed.foldl ThreadMetadataPatch.merge metadata ∨
        s.observed = sync.pendingUpdate.toList ∧ flushed.metadata = metadata) := by
  intro s flushed
  have h : Ordered metadata _ sync.pendingUpdate.toList s := (Ordered.opened metadata hgeneration).run _ _ _ hfresh
  obtain ⟨hreturned, hobserved, hmetadata⟩ : flushed.call i = .returned ∧ flushed.observed = s.observed ∧ flushed.metadata = _ :=
    flushAlone_eq hcall hflush clock
  refine ⟨hreturned, hobserved, ?_⟩
  rw [hmetadata, foldl_merge]
  rcases h.flushed with hall | ⟨hbegun, hnone⟩
  · exact .inl hall
  · -- the flush is deferred: the store has the patch the thread began with, or not
    rw [hnone, Option.map_none, Option.getD_none, mul_one, h.metadata]
    have hlength : s.observed.length ≤ 1 := by
      rw [hbegun]
      cases sync.pendingUpdate <;> simp
    rcases Nat.lt_or_ge s.written s.observed.length with hlt | hge
    · have hzero : s.written = 0 := by omega
      refine .inr ⟨hbegun, ?_⟩
      rw [hzero, List.take_zero, List.prod_nil, mul_one]
    · refine .inl ?_
      rw [List.take_of_length_le hge]

end

/-! ## Two snapshots out of order -/

def countOf (tokens : Int) : RolloutItem plainKinds := .eventMsg (.tokenCount (some ⟨tokens⟩))

/-- Two appends, of one token and of two, and flushes. -/
def twoAppends : Nat → Call plainKinds
  | 0 => .append [countOf 1]
  | 1 => .append [countOf 2]
  | _ => .flush

/-- A resumed thread on which the calls of `twoAppends` take the steps given. -/
def twoAppendsRun (calls : List Nat) : LiveThread plainKinds :=
  (LiveThread.opened (.forResume "t".toList none) {}).run plainCodecs id twoAppends (calls.map fun i => (i, plainClock))

theorem flush_stores_observed_interleaved :
    let s := twoAppendsRun [0, 1, 0, 1, 0, 1, 0, 1]
    let flushed := flushAlone plainCodecs id twoAppends s 2 plainClock
    s.observed.length = 2 ∧ flushed.metadata.tokenUsage.map TokenUsage.totalTokens = some 2 ∧
      flushed.metadata = s.observed.foldl ThreadMetadataPatch.merge {} := by
  intro s flushed
  have hlength : s.observed.length = 2 := by decide
  refine ⟨hlength, by decide, ?_⟩
  have hfresh : (LiveThread.opened (.forResume "t".toList none) {}).FreshRun plainCodecs id twoAppends
      ([0, 1, 0, 1, 0, 1, 0, 1].map fun i => (i, plainClock)) := by
    refine ⟨trivial, trivial, trivial, trivial, .inl (by decide), .inl (by decide), ?_, ?_, trivial⟩
    · change 2 < 1 + 2 ^ 64
      decide
    · change 2 < 2 + 2 ^ 64
      decide
  rcases (flush_stores_observed (i := 2) (by decide) hfresh rfl rfl plainClock).2.2 with hall | ⟨hnone, -⟩
  · exact hall
  · rw [show s.observed = [] from hnone] at hlength
    cases hlength

/-- **A stale snapshot.** The first append takes its snapshot, the second observes, writes and
acknowledges its own, and then the first one is written over it; the last flush finds nothing
pending. -/
theorem flush_loses_update :
    let s := twoAppendsRun [0, 0, 1, 1, 1, 1, 0, 0]
    let flushed := flushAlone plainCodecs id twoAppends s 2 plainClock
    s.call 0 = .returned ∧ s.call 1 = .returned ∧ flushed.call 2 = .returned ∧
      flushed.metadata.tokenUsage.map TokenUsage.totalTokens = some 1 ∧
      flushed.metadata ≠ s.observed.foldl ThreadMetadataPatch.merge {} ∧
      ¬ (s.observed = [] ∧ flushed.metadata = {}) := by
  intro s flushed
  have htokens : flushed.metadata.tokenUsage.map TokenUsage.totalTokens = some 1 := by decide
  refine ⟨rfl, rfl, rfl, htokens, fun h => ?_, fun h => ?_⟩
  · rw [h] at htokens
    exact absurd htokens (by decide)
  · rw [h.2] at htokens
    exact absurd htokens (by decide)

end LiveThread

end Codex.Metadata
