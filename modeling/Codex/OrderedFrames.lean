/-
The receive side of a noise relay stream puts records back into the order
they were encrypted in (`exec-server/src/noise_relay/ordered_ciphertext.rs`).
A record ahead of the release cursor waits in `pending`; the record at the
cursor is released with everything contiguous behind it.

`push` takes `&mut self`, and its callers can go on with the state an error
leaves behind, so here it returns that state beside its result. Sequence
numbers are `u32` and never wrap.
-/
import Codex.Lib.FiniteMaps
import Codex.Text

namespace Codex.NoiseRelay

abbrev U32 := Fin (2 ^ 32)

abbrev Bytes := List UInt8

/-- The errors of the relay modules, by their messages. -/
inductive ExecServerError where
  | protocol (message : String)
  | json
  deriving DecidableEq, Repr

def maxReorderDistance : Nat := 64
def maxPendingBytes : Nat := 1024 * 1024

def exceedsReorderWindow : ExecServerError := .protocol "Noise relay ciphertext exceeds reorder window"
def pendingBufferFull : ExecServerError := .protocol "Noise relay pending ciphertext buffer is full"
def sequenceExhausted : ExecServerError := .protocol "Noise relay sequence number exhausted"

def maxSeq : U32 := ⟨2 ^ 32 - 1, by decide⟩

structure OrderedCiphertextFrames where
  nextSeq : U32 := 0
  pending : AList (fun _ : U32 => Bytes) := ∅
  pendingBytes : Nat := 0

namespace OrderedCiphertextFrames

/-- `self.next_seq.checked_add(1)`; a failure changes nothing. -/
def advance (f : OrderedCiphertextFrames) : Except ExecServerError OrderedCiphertextFrames :=
  if h : f.nextSeq.val + 1 < 2 ^ 32 then .ok { f with nextSeq := ⟨f.nextSeq.val + 1, h⟩ }
  else .error sequenceExhausted

/-- `pending.remove(&next_seq)` and `pending_bytes -= payload.len()`. -/
def removeNext (f : OrderedCiphertextFrames) (payload : Bytes) : OrderedCiphertextFrames :=
  { f with pending := f.pending.erase f.nextSeq, pendingBytes := f.pendingBytes - payload.length }

@[simp] theorem removeNext_nextSeq (f : OrderedCiphertextFrames) (payload : Bytes) :
    (f.removeNext payload).nextSeq = f.nextSeq := rfl

@[simp] theorem removeNext_pending (f : OrderedCiphertextFrames) (payload : Bytes) :
    (f.removeNext payload).pending = f.pending.erase f.nextSeq := rfl

variable {f : OrderedCiphertextFrames} {payload : Bytes}

variable {g : OrderedCiphertextFrames}

theorem advance_eq_ok (h : f.advance = .ok g) :
    g.nextSeq.val = f.nextSeq.val + 1 ∧ g.pending = f.pending ∧ g.pendingBytes = f.pendingBytes := by
  unfold advance at h
  split at h
  · cases h
    exact ⟨rfl, rfl, rfl⟩
  · cases h

/-- The loop that releases what is now contiguous behind the cursor, and the
`advance` before it. -/
def releaseRun (f : OrderedCiphertextFrames) (ready : List Bytes) :
    Except ExecServerError (List Bytes) × OrderedCiphertextFrames :=
  match _hadv : f.advance with
  | .error e => (.error e, f)
  | .ok g =>
    match _hnext : g.pending.lookup g.nextSeq with
    | none => (.ok ready, g)
    | some payload => releaseRun (g.removeNext payload) (ready ++ [payload])
  termination_by f.pending.entries.length
  decreasing_by
    have hlen := FiniteMaps.length_erase (Option.isSome_of_eq_some _hnext)
    rw [removeNext_pending]
    rw [(advance_eq_ok _hadv).2.1] at hlen ⊢
    omega

def push (f : OrderedCiphertextFrames) (seq : U32) (payload : Bytes) :
    Except ExecServerError (List Bytes) × OrderedCiphertextFrames :=
  if seq < f.nextSeq ∨ seq ∈ f.pending then (.ok [], f)
  else if f.nextSeq < seq then
    if maxReorderDistance < seq.val - f.nextSeq.val then (.error exceedsReorderWindow, f)
    else if maxPendingBytes < f.pendingBytes + payload.length then (.error pendingBufferFull, f)
    else (.ok [], { f with
      pending := f.pending.insert seq payload, pendingBytes := f.pendingBytes + payload.length })
  else f.releaseRun [payload]

/-! ## What waits in the buffer -/

/-- The payload waiting under sequence number `n`. -/
def waiting (f : OrderedCiphertextFrames) (n : Nat) : Option Bytes :=
  if h : n < 2 ^ 32 then f.pending.lookup ⟨n, h⟩ else none

/-- The bytes of all waiting payloads. -/
def waitingBytes (f : OrderedCiphertextFrames) : Nat := (f.pending.entries.map fun e => e.2.length).sum

/-- What every push keeps of the buffer: it waits strictly above the cursor
and inside the window, and its bytes are counted. -/
structure Buffered (f : OrderedCiphertextFrames) : Prop where
  above : ∀ n payload, f.waiting n = some payload → f.nextSeq.val < n
  inWindow : ∀ n payload, f.waiting n = some payload → n - f.nextSeq.val ≤ maxReorderDistance
  counted : f.pendingBytes = f.waitingBytes
  capped : f.pendingBytes ≤ maxPendingBytes

theorem waiting_val (f : OrderedCiphertextFrames) (k : U32) : f.waiting k.val = f.pending.lookup k := by
  unfold waiting
  rw [dif_pos k.isLt]

theorem waiting_insert {k : U32} {n : Nat} :
    ({ f with pending := f.pending.insert k payload } : OrderedCiphertextFrames).waiting n =
      if n = k.val then some payload else f.waiting n := by
  unfold waiting
  by_cases hk : n = k.val
  · subst hk
    rw [dif_pos k.isLt, if_pos rfl]
    exact AList.lookup_insert _
  · rw [if_neg hk]
    split
    · exact AList.lookup_insert_ne fun h => hk (congrArg Fin.val h)
    · rfl

theorem waiting_removeNext {n : Nat} :
    (f.removeNext payload).waiting n = if n = f.nextSeq.val then none else f.waiting n := by
  unfold waiting
  by_cases hk : n = f.nextSeq.val
  · subst hk
    rw [dif_pos f.nextSeq.isLt, if_pos rfl]
    exact AList.lookup_erase _ _
  · rw [if_neg hk]
    split
    · exact AList.lookup_erase_ne fun h => hk (congrArg Fin.val h)
    · rfl

theorem waitingBytes_insert {k : U32} (hk : k ∉ f.pending) (payload : Bytes) :
    ({ f with pending := f.pending.insert k payload } : OrderedCiphertextFrames).waitingBytes =
      f.waitingBytes + payload.length := by
  unfold waitingBytes
  rw [AList.entries_insert_of_notMem hk, List.map_cons, List.sum_cons]
  exact Nat.add_comm _ _

theorem waitingBytes_removeNext (h : f.pending.lookup f.nextSeq = some payload) :
    f.waitingBytes = (f.removeNext payload).waitingBytes + payload.length := by
  have hk : f.nextSeq ∈ f.pending.entries.keys := AList.mem_keys.1 (AList.lookup_isSome.1 (by rw [h]; rfl))
  obtain ⟨b, l₁, l₂, -, hl, he⟩ := List.exists_of_kerase hk
  have hb : b = payload := by
    have hmem : ⟨f.nextSeq, b⟩ ∈ f.pending.entries := by rw [hl]; simp
    have := (AList.mem_lookup_iff (s := f.pending)).2 hmem
    rw [h] at this
    exact (Option.some.inj this).symm
  have herase : (f.removeNext payload).pending.entries = l₁ ++ l₂ := he
  unfold waitingBytes
  rw [herase, hl, hb]
  simp only [List.map_append, List.map_cons, List.sum_append, List.sum_cons]
  omega

/-- Nothing waits above the last sequence number. -/
theorem Buffered.eq_of_exhausted (hf : f.Buffered) (h : f.nextSeq = maxSeq) :
    f = { nextSeq := maxSeq } := by
  have hempty : f.pending = ∅ := by
    apply AList.ext
    rw [AList.empty_entries, List.eq_nil_iff_forall_not_mem]
    intro e he
    have hw : f.waiting e.1.val = some e.2 := by
      rw [waiting_val]
      exact AList.mem_lookup_iff.2 he
    have hlt := hf.above _ _ hw
    have hmax : maxSeq.val = 2 ^ 32 - 1 := rfl
    rw [h] at hlt
    omega
  have hbytes : f.pendingBytes = 0 := by
    rw [hf.counted, waitingBytes, hempty]
    rfl
  obtain ⟨n, p, b⟩ := f
  simp only at h hempty hbytes
  rw [h, hempty, hbytes]

/-! ## One push -/

theorem maxSeq_val : maxSeq.val = 2 ^ 32 - 1 := rfl

theorem advance_eq_error {e} (h : f.advance = .error e) : e = sequenceExhausted ∧ f.nextSeq = maxSeq := by
  unfold advance at h
  split at h
  · cases h
  · next hlt =>
    cases h
    refine ⟨rfl, Fin.ext ?_⟩
    rw [maxSeq_val]
    omega

/-- The buffer right after the cursor moved: the record at the cursor may wait in it. -/
structure Advanced (f : OrderedCiphertextFrames) : Prop where
  notBelow : ∀ n payload, f.waiting n = some payload → f.nextSeq.val ≤ n
  inWindow : ∀ n payload, f.waiting n = some payload → n - f.nextSeq.val ≤ maxReorderDistance
  counted : f.pendingBytes = f.waitingBytes
  capped : f.pendingBytes ≤ maxPendingBytes

theorem waiting_congr (h : g.pending = f.pending) (n : Nat) : g.waiting n = f.waiting n := by
  unfold waiting
  rw [h]

theorem Buffered.advanced (hf : f.Buffered) (h : f.advance = .ok g) : g.Advanced := by
  obtain ⟨hseq, hpend, hbytes⟩ := advance_eq_ok h
  constructor
  · intro n payload hn
    rw [waiting_congr hpend] at hn
    have := hf.above n payload hn
    omega
  · intro n payload hn
    rw [waiting_congr hpend] at hn
    have := hf.inWindow n payload hn
    omega
  · rw [hbytes, hf.counted, waitingBytes, waitingBytes, hpend]
  · rw [hbytes]
    exact hf.capped

/-- Nothing waits at the cursor: the run ends here. -/
theorem Advanced.buffered (hf : f.Advanced) (h : f.pending.lookup f.nextSeq = none) : f.Buffered := by
  refine ⟨fun n payload hn => ?_, hf.inWindow, hf.counted, hf.capped⟩
  have hle := hf.notBelow n payload hn
  have hne : n ≠ f.nextSeq.val := by
    intro he
    rw [he, waiting_val, h] at hn
    cases hn
  omega

theorem Advanced.removeNext (hf : f.Advanced)
    (h : f.pending.lookup f.nextSeq = some payload) : (f.removeNext payload).Buffered := by
  have hbytes := waitingBytes_removeNext h
  have hcount : (f.removeNext payload).pendingBytes = f.pendingBytes - payload.length := rfl
  have hcounted := hf.counted
  have hcapped := hf.capped
  constructor
  · intro n p hn
    rw [waiting_removeNext] at hn
    split at hn
    · cases hn
    · have := hf.notBelow n p hn
      rw [removeNext_nextSeq]
      omega
  · intro n p hn
    rw [waiting_removeNext] at hn
    split at hn
    · cases hn
    · exact hf.inWindow n p hn
  · omega
  · omega

/-- What a release leaves: the run it released, found at the cursor and right
behind it, and the buffer without it. -/
structure Released (f : OrderedCiphertextFrames) (run : List Bytes) (g : OrderedCiphertextFrames) : Prop where
  cursor : g.nextSeq.val = f.nextSeq.val + 1 + run.length
  run_waiting : ∀ i (h : i < run.length), f.waiting (f.nextSeq.val + 1 + i) = some run[i]
  left : ∀ n, g.waiting n = if n < g.nextSeq.val then none else f.waiting n
  buffered : g.Buffered

/-- **What the release loop does.** It ends below the last sequence number
with the contiguous run released, or reaches it and leaves an empty buffer. -/
theorem releaseRun_spec (hf : f.Buffered) (ready : List Bytes) :
    (∃ run, (f.releaseRun ready).1 = .ok (ready ++ run) ∧ Released f run (f.releaseRun ready).2) ∨
      f.releaseRun ready = (.error sequenceExhausted, { nextSeq := maxSeq }) := by
  induction f, ready using releaseRun.induct with
  | case1 f ready e hadv =>
    right
    obtain ⟨rfl, hmax⟩ := advance_eq_error hadv
    unfold releaseRun
    split
    · next h => rw [hadv] at h; cases h; rw [hf.eq_of_exhausted hmax]
    · next h => rw [hadv] at h; cases h
  | case2 f ready g hadv hnext =>
    left
    have hadvanced := hf.advanced hadv
    obtain ⟨hseq, hpend, hbytes⟩ := advance_eq_ok hadv
    have hres : f.releaseRun ready = (.ok ready, g) := by
      unfold releaseRun
      split
      · next h => rw [hadv] at h; cases h
      · next h =>
        rw [hadv] at h; cases h
        split
        · rfl
        · next h => rw [hnext] at h; cases h
    rw [hres]
    refine ⟨[], by simp, ⟨by simpa using hseq, fun i h => absurd h (by simp), fun n => ?_, hadvanced.buffered hnext⟩⟩
    rw [waiting_congr hpend]
    split
    · next hlt =>
      change n < g.nextSeq.val at hlt
      cases hw : f.waiting n with
      | none => rfl
      | some payload =>
        have := hf.above n payload hw
        omega
    · rfl
  | case3 f ready g hadv payload hnext ih =>
    have hadvanced := hf.advanced hadv
    obtain ⟨hseq, hpend, hbytes⟩ := advance_eq_ok hadv
    have hres : f.releaseRun ready = (g.removeNext payload).releaseRun (ready ++ [payload]) := by
      conv_lhs => unfold releaseRun
      split
      · next h => rw [hadv] at h; cases h
      · next h =>
        rw [hadv] at h; cases h
        split
        · next h => rw [hnext] at h; cases h
        · next h => rw [hnext] at h; cases h; rfl
    rw [hres]
    obtain ⟨run, hok, hrel⟩ | herr := ih (hadvanced.removeNext hnext)
    · left
      refine ⟨payload :: run, by rw [hok]; simp, ?_, ?_, ?_, hrel.buffered⟩
      · have := hrel.cursor
        rw [removeNext_nextSeq] at this
        simp only [List.length_cons]
        omega
      · intro i hi
        cases i with
        | zero =>
          rw [← waiting_congr hpend, Nat.add_zero, ← hseq, waiting_val]
          exact hnext
        | succ i =>
          have := hrel.run_waiting i (by simpa using hi)
          rw [removeNext_nextSeq, waiting_removeNext, if_neg (by omega), waiting_congr hpend] at this
          simpa [hseq, Nat.add_assoc, Nat.add_comm, Nat.add_left_comm] using this
      · intro n
        rw [hrel.left n, waiting_removeNext]
        have hcur := hrel.cursor
        rw [removeNext_nextSeq] at hcur
        split
        · rfl
        · rw [if_neg (by omega), waiting_congr hpend]
    · exact .inr herr

end OrderedCiphertextFrames

end Codex.NoiseRelay
