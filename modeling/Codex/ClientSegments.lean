/-
How the chunks of a client's message are put together again. A client has one
message under assembly at a time; an envelope that is not a chunk passes.

`decode_slice` succeeds exactly on valid base64 that fits the slice.
`from_slice` is `serde_json::from_slice` at the message type. The order in
which the map of assemblies is iterated is that of the association list.

Source: app-server-transport/src/transport/remote_control/segment.rs
(`ClientSegmentReassembler`).
-/
import Codex.Lib.Base64
import Codex.Lib.FiniteMaps
import Codex.Lib.Runs
import Codex.ServerSegments
import Mathlib.Data.List.MinMax

namespace Codex.RemoteControl

open JsonRpc (JSONRPCMessage)

def remoteControlSegmentAssemblyMaxCount : Nat := 128

abbrev Instant := Nat

structure ClientSegmentMetadata where
  seqId : U64
  segmentCount : Usize
  messageSizeBytes : Usize
  deriving DecidableEq

structure ClientSegmentAssembly where
  streamId : StreamId
  metadata : ClientSegmentMetadata
  raw : Bytes := []
  nextSegmentId : Nat := 0
  lastChunkSeenAt : Instant

structure ClientSegmentReassembler where
  assemblies : AList fun _ : ClientId => ClientSegmentAssembly := ∅

inductive ClientSegmentObservation where
  | forward (e : ClientEnvelope)
  | pending
  | dropped

inductive AssemblyUpdate where
  | pending
  | ignore
  | drop
  | complete (message : JSONRPCMessage)

def ClientSegmentMetadata.fromEnvelope (e : ClientEnvelope) : Option ClientSegmentMetadata :=
  match e.event with
  | .clientMessageChunk _ segmentCount messageSizeBytes _ =>
    e.seqId.map fun seqId => { seqId, segmentCount, messageSizeBytes }
  | _ => none

/-! ## The buffer -/

/-- `Vec::resize` with zeros -/
def resize (raw : Bytes) (len : Nat) : Bytes := raw.take len ++ List.replicate (len - raw.length) 0

/-- The slice from `start` on begins with the bytes. -/
def writeAt (raw : Bytes) (start : Nat) (bytes : Bytes) : Bytes :=
  raw.take start ++ bytes ++ raw.drop (start + bytes.length)

def decodeSlice (text : Text) (sliceLen : Nat) : Option Bytes :=
  (Base64.decode text).filter fun bytes => bytes.length ≤ sliceLen

/-- `str::len` -/
def utf8Len (text : Text) : Nat := (text.map Char.utf8Size).sum

namespace ClientSegmentAssembly

/-- Where the buffer ends while a chunk is decoded into it. -/
def chunkEnd (a : ClientSegmentAssembly) (messageSizeBytes : Usize) (messageChunkBase64 : Text) : Nat :=
  min messageSizeBytes (a.raw.length + Base64.decodedLenEstimate (utf8Len messageChunkBase64))

/-- What one chunk makes of the assembly its envelope was given. -/
def update (fromSlice : Bytes → Option JSONRPCMessage) (a : ClientSegmentAssembly) (metadata : ClientSegmentMetadata)
    (segmentId : Usize) (messageChunkBase64 : Text) (now : Instant) : ClientSegmentAssembly × AssemblyUpdate :=
  if metadata.seqId < a.metadata.seqId then (a, .ignore)
  else if a.metadata ≠ metadata then (a, .drop)
  else if segmentId.val < a.nextSegmentId then (a, .pending)
  else if segmentId.val ≠ a.nextSegmentId then (a, .drop)
  else
    let chunkStart := a.raw.length
    let chunkEnd := a.chunkEnd metadata.messageSizeBytes messageChunkBase64
    let resized := resize a.raw chunkEnd
    match decodeSlice messageChunkBase64 (chunkEnd - chunkStart) with
    | none => ({ a with raw := resized, lastChunkSeenAt := now }, .drop)
    | some decoded =>
      let raw := (writeAt resized chunkStart decoded).take (chunkStart + decoded.length)
      let a := { a with raw, nextSegmentId := a.nextSegmentId + 1, lastChunkSeenAt := now }
      if a.nextSegmentId < metadata.segmentCount.val then (a, .pending)
      else if raw.length ≠ metadata.messageSizeBytes.val then (a, .drop)
      else
        match fromSlice raw with
        | some message => (a, .complete message)
        | none => (a, .drop)

end ClientSegmentAssembly

/-! ## The assemblies -/

def invalidChunk (segmentId segmentCount messageSizeBytes : Usize) (messageChunkBase64 : Text) : Prop :=
  segmentCount = 0 ∨ remoteControlSegmentCountMax < segmentCount.val ∨ segmentCount ≤ segmentId ∨
    messageSizeBytes = 0 ∨ remoteControlReassembledMaxBytes < messageSizeBytes.val ∨ messageChunkBase64 = []

instance decidableInvalidChunk {segmentId segmentCount messageSizeBytes : Usize} {messageChunkBase64 : Text} :
    Decidable (invalidChunk segmentId segmentCount messageSizeBytes messageChunkBase64) :=
  inferInstanceAs (Decidable (_ ∨ _))

/-- The loop of `evict_assemblies_if_full`; a turn removes an assembly. -/
def evictLoop : Nat → (AList fun _ : ClientId => ClientSegmentAssembly) → AList fun _ : ClientId => ClientSegmentAssembly
  | 0, assemblies => assemblies
  | fuel + 1, assemblies =>
    if remoteControlSegmentAssemblyMaxCount ≤ assemblies.entries.length then
      match assemblies.entries.argmin fun entry => entry.2.lastChunkSeenAt with
      | none => assemblies
      | some entry => evictLoop fuel (assemblies.erase entry.1)
    else assemblies

namespace ClientSegmentReassembler

def evictAssembliesIfFull (r : ClientSegmentReassembler) : ClientSegmentReassembler :=
  { assemblies := evictLoop r.assemblies.entries.length r.assemblies }

def insert (r : ClientSegmentReassembler) (clientId : ClientId) (a : ClientSegmentAssembly) : ClientSegmentReassembler :=
  { assemblies := r.assemblies.insert clientId a }

def shouldIgnoreChunk (r : ClientSegmentReassembler) (clientId : ClientId) (streamId : StreamId) (seqId : U64)
    (segmentId : Usize) : Bool :=
  (r.assemblies.lookup clientId).any fun a => decide (a.streamId = streamId ∧
    (seqId < a.metadata.seqId ∨ seqId = a.metadata.seqId ∧ segmentId.val < a.nextSegmentId))

def removeAssembly (r : ClientSegmentReassembler) (clientId : ClientId) (streamId : StreamId) : ClientSegmentReassembler :=
  if (r.assemblies.lookup clientId).any fun a => decide (a.streamId = streamId) then
    { assemblies := r.assemblies.erase clientId }
  else r

def invalidateStream (r : ClientSegmentReassembler) (clientId : ClientId) (streamId : StreamId) : ClientSegmentReassembler :=
  r.removeAssembly clientId streamId

def invalidateClient (r : ClientSegmentReassembler) (clientId : ClientId) : ClientSegmentReassembler :=
  { assemblies := r.assemblies.erase clientId }

/-- The first `match` over the client's assembly: there is one on the stream afterwards. -/
def openAssembly (r : ClientSegmentReassembler) (clientId : ClientId) (streamId : StreamId)
    (metadata : ClientSegmentMetadata) (now : Instant) : ClientSegmentReassembler :=
  let fresh : ClientSegmentAssembly := { streamId, metadata, lastChunkSeenAt := now }
  match r.assemblies.lookup clientId with
  | some a => if a.streamId ≠ streamId then r.insert clientId fresh else r
  | none => r.evictAssembliesIfFull.insert clientId fresh

def observe (fromSlice : Bytes → Option JSONRPCMessage) (r : ClientSegmentReassembler) (e : ClientEnvelope) (now : Instant) :
    ClientSegmentReassembler × ClientSegmentObservation :=
  match e.event with
  | .clientMessageChunk segmentId segmentCount messageSizeBytes messageChunkBase64 =>
    match ClientSegmentMetadata.fromEnvelope e, e.streamId with
    | none, _ => (r, .dropped)
    | some _, none => (r, .dropped)
    | some metadata, some streamId =>
      if r.shouldIgnoreChunk e.clientId streamId metadata.seqId segmentId then (r, .dropped)
      else if invalidChunk segmentId segmentCount messageSizeBytes messageChunkBase64 then
        (r.removeAssembly e.clientId streamId, .dropped)
      else
        let r := r.openAssembly e.clientId streamId metadata now
        match r.assemblies.lookup e.clientId with
        | none => (r, .dropped)
        | some a =>
          let (a, result) := a.update fromSlice metadata segmentId messageChunkBase64 now
          let r := r.insert e.clientId a
          match result with
          | .pending => (r, .pending)
          | .ignore => (r, .dropped)
          | .drop => (r.removeAssembly e.clientId streamId, .dropped)
          | .complete message =>
            (r.removeAssembly e.clientId streamId, .forward { e with event := .clientMessage message })
  | _ => (r, .forward e)

end ClientSegmentReassembler

/-! ## One client's assembly -/

variable {fromSlice : Bytes → Option JSONRPCMessage}

section Slot

variable (slot : Option ClientSegmentAssembly) (streamId : StreamId)

def ignoresChunk (seqId : U64) (segmentId : Usize) : Bool :=
  slot.any fun a => decide (a.streamId = streamId ∧
    (seqId < a.metadata.seqId ∨ seqId = a.metadata.seqId ∧ segmentId.val < a.nextSegmentId))

def cleared : Option ClientSegmentAssembly := slot.filter fun a => decide (a.streamId ≠ streamId)

def opened (metadata : ClientSegmentMetadata) (now : Instant) : ClientSegmentAssembly :=
  match slot with
  | some a => if a.streamId ≠ streamId then { streamId, metadata, lastChunkSeenAt := now } else a
  | none => { streamId, metadata, lastChunkSeenAt := now }

/-- The second `match`, on what the chunk made of the assembly. -/
def afterUpdate (e : ClientEnvelope) : ClientSegmentAssembly × AssemblyUpdate →
    Option ClientSegmentAssembly × ClientSegmentObservation
  | (a, .pending) => (some a, .pending)
  | (a, .ignore) => (some a, .dropped)
  | (_, .drop) => (none, .dropped)
  | (_, .complete message) => (none, .forward { e with event := .clientMessage message })

/-- What an envelope does to its own client's assembly, and its outcome, depend on that assembly alone. -/
def observeSlot (fromSlice : Bytes → Option JSONRPCMessage) (slot : Option ClientSegmentAssembly) (e : ClientEnvelope)
    (now : Instant) : Option ClientSegmentAssembly × ClientSegmentObservation :=
  match e.event with
  | .clientMessageChunk segmentId segmentCount messageSizeBytes messageChunkBase64 =>
    match ClientSegmentMetadata.fromEnvelope e, e.streamId with
    | none, _ => (slot, .dropped)
    | some _, none => (slot, .dropped)
    | some metadata, some streamId =>
      if ignoresChunk slot streamId metadata.seqId segmentId then (slot, .dropped)
      else if invalidChunk segmentId segmentCount messageSizeBytes messageChunkBase64 then (cleared slot streamId, .dropped)
      else
        afterUpdate e
          ((opened slot streamId metadata now).update fromSlice metadata segmentId messageChunkBase64 now)
  | _ => (slot, .forward e)

end Slot

theorem opened_of_streamId {a streamId} (h : a.streamId = streamId)
    (metadata : ClientSegmentMetadata) (now : Instant) : opened (some a) streamId metadata now = a := if_neg (not_not.2 h)

theorem opened_streamId (slot : Option ClientSegmentAssembly) (streamId : StreamId) (metadata : ClientSegmentMetadata)
    (now : Instant) : (opened slot streamId metadata now).streamId = streamId := by
  unfold opened
  split
  next a =>
    split
    · rfl
    · next h => exact not_not.1 h
  next => rfl

theorem ClientSegmentAssembly.update_streamId (fromSlice : Bytes → Option JSONRPCMessage) (a : ClientSegmentAssembly)
    (metadata : ClientSegmentMetadata) (segmentId : Usize) (messageChunkBase64 : Text) (now : Instant) :
    (a.update fromSlice metadata segmentId messageChunkBase64 now).1.streamId = a.streamId := by
  unfold update
  grind

theorem ClientSegmentAssembly.update_metadata (fromSlice : Bytes → Option JSONRPCMessage) (a : ClientSegmentAssembly)
    (metadata : ClientSegmentMetadata) (segmentId : Usize) (messageChunkBase64 : Text) (now : Instant) :
    (a.update fromSlice metadata segmentId messageChunkBase64 now).1.metadata = a.metadata := by
  unfold update
  grind

variable {c' : ClientId} (c : ClientId) {slot : Option ClientSegmentAssembly}

namespace ClientSegmentReassembler

variable {r : ClientSegmentReassembler}

theorem lookup_insert_of_ne {c} (h : c' ≠ c) (a : ClientSegmentAssembly) :
    (r.insert c a).assemblies.lookup c' = r.assemblies.lookup c' := AList.lookup_insert_ne h

theorem lookup_removeAssembly (streamId : StreamId) :
    (r.removeAssembly c streamId).assemblies.lookup c = cleared (r.assemblies.lookup c) streamId := by
  unfold removeAssembly cleared
  cases hslot : r.assemblies.lookup c with
  | none => simp [hslot]
  | some a => by_cases h : a.streamId = streamId <;> simp [h, hslot, Option.filter]

theorem lookup_removeAssembly_of_ne {c} (h : c' ≠ c) (streamId : StreamId) :
    (r.removeAssembly c streamId).assemblies.lookup c' = r.assemblies.lookup c' := by
  unfold removeAssembly
  split
  · exact AList.lookup_erase_ne h
  · rfl

/-- Making room takes nothing away while there is room. -/
theorem evictAssembliesIfFull_eq (h : r.assemblies.entries.length < remoteControlSegmentAssemblyMaxCount) :
    r.evictAssembliesIfFull = r := by
  unfold evictAssembliesIfFull
  cases hlen : r.assemblies.entries.length with
  | zero => rfl
  | succ fuel => rw [evictLoop, if_neg (by omega)]

theorem lookup_evictLoop (fuel : Nat) (assemblies : AList fun _ : ClientId => ClientSegmentAssembly) (c : ClientId) :
    (evictLoop fuel assemblies).lookup c = assemblies.lookup c ∨ (evictLoop fuel assemblies).lookup c = none := by
  induction fuel generalizing assemblies with
  | zero => exact .inl rfl
  | succ fuel ih =>
    unfold evictLoop
    split
    · split
      next => exact .inl rfl
      next entry _ =>
        rcases ih (assemblies.erase entry.1) with h | h
        · by_cases hc : c = entry.1
          · subst hc
            exact .inr (by rw [h, AList.lookup_erase])
          · exact .inl (by rw [h, AList.lookup_erase_ne hc])
        · exact .inr h
    · exact .inl rfl

theorem lookup_openAssembly (streamId : StreamId) (metadata : ClientSegmentMetadata) (now : Instant) :
    (r.openAssembly c streamId metadata now).assemblies.lookup c =
      some (opened (r.assemblies.lookup c) streamId metadata now) := by
  unfold openAssembly opened
  cases hslot : r.assemblies.lookup c with
  | none => exact AList.lookup_insert _
  | some a =>
    dsimp only
    split
    · exact AList.lookup_insert _
    · exact hslot

theorem lookup_openAssembly_of_ne {c} (h : c' ≠ c) (streamId : StreamId) (metadata : ClientSegmentMetadata)
    (now : Instant) : (r.openAssembly c streamId metadata now).assemblies.lookup c' = r.assemblies.lookup c' ∨
      remoteControlSegmentAssemblyMaxCount ≤ r.assemblies.entries.length ∧
        (r.openAssembly c streamId metadata now).assemblies.lookup c' = none := by
  unfold openAssembly
  cases r.assemblies.lookup c with
  | none =>
    rw [lookup_insert_of_ne h]
    by_cases hfull : r.assemblies.entries.length < remoteControlSegmentAssemblyMaxCount
    · exact .inl (by rw [evictAssembliesIfFull_eq hfull])
    · exact (lookup_evictLoop _ _ c').imp id fun hnone => ⟨by omega, hnone⟩
  | some a =>
    dsimp only
    split
    · exact .inl (lookup_insert_of_ne h _)
    · exact .inl rfl

/-- **An envelope does to its client's assembly what that assembly says.** -/
theorem observe_eq (fromSlice : Bytes → Option JSONRPCMessage) (r : ClientSegmentReassembler) (e : ClientEnvelope)
    (now : Instant) :
    ((r.observe fromSlice e now).1.assemblies.lookup e.clientId, (r.observe fromSlice e now).2) =
      observeSlot fromSlice (r.assemblies.lookup e.clientId) e now := by
  unfold observe observeSlot
  cases e.event with
  | clientMessageChunk segmentId segmentCount messageSizeBytes messageChunkBase64 =>
    cases ClientSegmentMetadata.fromEnvelope e with
    | none => rfl
    | some metadata =>
      cases hstreamId : e.streamId with
      | none => rfl
      | some streamId =>
        dsimp only
        have hignore : r.shouldIgnoreChunk e.clientId streamId metadata.seqId segmentId =
            ignoresChunk (r.assemblies.lookup e.clientId) streamId metadata.seqId segmentId := rfl
        rw [hignore]
        split
        · rfl
        split
        · rw [lookup_removeAssembly]
        rw [lookup_openAssembly]
        dsimp only
        have hstream := ClientSegmentAssembly.update_streamId fromSlice
          (opened (r.assemblies.lookup e.clientId) streamId metadata now) metadata segmentId messageChunkBase64 now
        rw [opened_streamId] at hstream
        generalize (opened (r.assemblies.lookup e.clientId) streamId metadata now).update fromSlice metadata segmentId
          messageChunkBase64 now = updated at hstream
        obtain ⟨a, result⟩ := updated
        cases result <;> simp_all [afterUpdate, insert, lookup_removeAssembly, cleared]
  | clientMessage | ack | ping | clientClosed => rfl

theorem lookup_observe (fromSlice : Bytes → Option JSONRPCMessage) (r : ClientSegmentReassembler) (e : ClientEnvelope)
    (now : Instant) : (r.observe fromSlice e now).1.assemblies.lookup e.clientId =
      (observeSlot fromSlice (r.assemblies.lookup e.clientId) e now).1 := congrArg Prod.fst (observe_eq fromSlice r e now)

theorem observe_snd (fromSlice : Bytes → Option JSONRPCMessage) (r : ClientSegmentReassembler) (e : ClientEnvelope)
    (now : Instant) : (r.observe fromSlice e now).2 = (observeSlot fromSlice (r.assemblies.lookup e.clientId) e now).2 :=
  congrArg Prod.snd (observe_eq fromSlice r e now)

theorem lookup_observe_of_ne (fromSlice : Bytes → Option JSONRPCMessage) {e c}
    (h : c ≠ e.clientId) (now : Instant) :
    (r.observe fromSlice e now).1.assemblies.lookup c = r.assemblies.lookup c ∨
      remoteControlSegmentAssemblyMaxCount ≤ r.assemblies.entries.length ∧
        (r.observe fromSlice e now).1.assemblies.lookup c = none := by
  unfold observe
  split
  next segmentId segmentCount messageSizeBytes messageChunkBase64 _ =>
    split
    next => exact .inl rfl
    next => exact .inl rfl
    next metadata streamId _ _ =>
      split
      · exact .inl rfl
      split
      · exact .inl (lookup_removeAssembly_of_ne h streamId)
      dsimp only
      rw [lookup_openAssembly]
      dsimp only
      have hopen := lookup_openAssembly_of_ne (r := r) h streamId metadata now
      split <;> simpa only [lookup_removeAssembly_of_ne h, lookup_insert_of_ne h] using hopen
  next => exact .inl rfl

end ClientSegmentReassembler

/-! ## Bounds -/

/-- The buffer is within the size the message was declared with. -/
def ClientSegmentAssembly.Fits (a : ClientSegmentAssembly) : Prop := a.raw.length ≤ a.metadata.messageSizeBytes.val

theorem length_resize (raw : Bytes) (len : Nat) : (resize raw len).length = len := by
  unfold resize
  rw [List.length_append, List.length_take, List.length_replicate]
  omega

theorem decodeSlice_eq_some {text : Text} {sliceLen : Nat} {bytes} :
    decodeSlice text sliceLen = some bytes ↔ Base64.decode text = some bytes ∧ bytes.length ≤ sliceLen := by
  unfold decodeSlice
  rw [Option.filter_eq_some_iff, decide_eq_true_iff]

/-- What is left after the truncation: the buffer and what was decoded into it. -/
theorem take_writeAt_resize {raw bytes} {len : Nat} (h : raw.length ≤ len) :
    (writeAt (resize raw len) raw.length bytes).take (raw.length + bytes.length) = raw ++ bytes := by
  have htake : (resize raw len).take raw.length = raw := by
    unfold resize
    rw [List.take_of_length_le h, List.take_left]
  unfold writeAt
  rw [htake, ← List.length_append, List.take_left]

namespace ClientSegmentAssembly

variable {a : ClientSegmentAssembly}

theorem Fits.le_chunkEnd (h : a.Fits) (text : Text) : a.raw.length ≤ a.chunkEnd a.metadata.messageSizeBytes text := by
  unfold chunkEnd
  unfold Fits at h
  omega

theorem chunkEnd_le (messageSizeBytes : Usize) (text : Text) : a.chunkEnd messageSizeBytes text ≤ messageSizeBytes.val :=
  Nat.min_le_left ..

theorem Fits.update (h : a.Fits) (fromSlice : Bytes → Option JSONRPCMessage) (metadata : ClientSegmentMetadata)
    (segmentId : Usize) (text : Text) (now : Instant) :
    (a.update fromSlice metadata segmentId text now).1.Fits := by
  unfold ClientSegmentAssembly.update
  split
  · exact h
  split
  · exact h
  next hmetadata =>
    obtain rfl : a.metadata = metadata := not_not.1 hmetadata
    split
    · exact h
    split
    · exact h
    dsimp only
    have hle := a.chunkEnd_le a.metadata.messageSizeBytes text
    split
    next =>
      show (resize _ _).length ≤ a.metadata.messageSizeBytes.val
      rwa [length_resize]
    next decoded hdecoded =>
      have hroom := (decodeSlice_eq_some.1 hdecoded).2
      have hstart := h.le_chunkEnd text
      rw [take_writeAt_resize hstart]
      have hfits : (a.raw ++ decoded).length ≤ a.metadata.messageSizeBytes.val := by
        rw [List.length_append]
        omega
      split
      · exact hfits
      split
      · exact hfits
      split <;> exact hfits

end ClientSegmentAssembly

theorem fits_cleared (h : ∀ a ∈ slot, a.Fits) (streamId : StreamId) :
    ∀ a ∈ cleared slot streamId, a.Fits := by
  intro a ha
  exact h a (Option.filter_eq_some_iff.1 ha).1

theorem fits_opened (h : ∀ a ∈ slot, a.Fits) (streamId : StreamId)
    (metadata : ClientSegmentMetadata) (now : Instant) : (opened slot streamId metadata now).Fits := by
  unfold opened
  split
  next a =>
    split
    · exact Nat.zero_le _
    · exact h a rfl
  next => exact Nat.zero_le _

theorem fits_afterUpdate {updated} (h : updated.1.Fits) (e : ClientEnvelope) :
    ∀ a ∈ (afterUpdate e updated).1, a.Fits := by
  obtain ⟨a, result⟩ := updated
  intro a' ha
  cases result with
  | pending => exact Option.some.inj ha ▸ h
  | ignore => exact Option.some.inj ha ▸ h
  | drop => exact nomatch ha
  | complete => exact nomatch ha

theorem fits_observeSlot (h : ∀ a ∈ slot, a.Fits) (e : ClientEnvelope) (now : Instant) :
    ∀ a ∈ (observeSlot fromSlice slot e now).1, a.Fits := by
  unfold observeSlot
  split
  next segmentId _ _ messageChunkBase64 _ =>
    split
    next => exact h
    next => exact h
    next metadata streamId _ _ =>
      split
      · exact h
      split
      · exact fits_cleared h streamId
      have hfits := (fits_opened h streamId metadata now).update fromSlice metadata segmentId
        messageChunkBase64 now
      exact fits_afterUpdate hfits e
  next => exact h

/-- No more assemblies than the limit, and each within its size. -/
structure ClientSegmentReassembler.Bounded (r : ClientSegmentReassembler) : Prop where
  count : r.assemblies.entries.length ≤ remoteControlSegmentAssemblyMaxCount
  fits : ∀ c, ∀ a ∈ r.assemblies.lookup c, a.Fits

inductive ReassemblerAction where
  | observe (e : ClientEnvelope) (now : Instant)
  | invalidateStream (clientId : ClientId) (streamId : StreamId)
  | invalidateClient (clientId : ClientId)

namespace ClientSegmentReassembler

def step (fromSlice : Bytes → Option JSONRPCMessage) (r : ClientSegmentReassembler) :
    ReassemblerAction → ClientSegmentReassembler
  | .observe e now => (r.observe fromSlice e now).1
  | .invalidateStream clientId streamId => r.invalidateStream clientId streamId
  | .invalidateClient clientId => r.invalidateClient clientId

variable {r : ClientSegmentReassembler}

theorem length_erase_le (assemblies : AList fun _ : ClientId => ClientSegmentAssembly) (c : ClientId) :
    (assemblies.erase c).entries.length ≤ assemblies.entries.length := (List.kerase_sublist _ _).length_le

theorem length_removeAssembly_le (streamId : StreamId) :
    (r.removeAssembly c streamId).assemblies.entries.length ≤ r.assemblies.entries.length := by
  unfold removeAssembly
  split
  · exact length_erase_le ..
  · exact Nat.le_refl _

/-- Writing to a client that has an assembly adds none. -/
theorem length_insert_of_isSome {c} (h : (r.assemblies.lookup c).isSome) (a : ClientSegmentAssembly) :
    (r.insert c a).assemblies.entries.length = r.assemblies.entries.length := FiniteMaps.length_erase h

theorem length_insert_le (a : ClientSegmentAssembly) :
    (r.insert c a).assemblies.entries.length ≤ r.assemblies.entries.length + 1 :=
  Nat.succ_le_succ (length_erase_le ..)

theorem length_evictLoop_lt {fuel : Nat} {assemblies : AList fun _ : ClientId => ClientSegmentAssembly}
    (h : assemblies.entries.length ≤ fuel) :
    (evictLoop fuel assemblies).entries.length < remoteControlSegmentAssemblyMaxCount := by
  induction fuel generalizing assemblies with
  | zero => exact Nat.lt_of_le_of_lt h (by decide)
  | succ fuel ih =>
    unfold evictLoop
    split
    next hfull =>
      split
      next hnone =>
        rw [List.argmin_eq_none] at hnone
        rw [hnone] at hfull
        exact absurd hfull (by decide)
      next entry hentry =>
        have hmem := List.argmin_mem hentry
        have hsome : (assemblies.lookup entry.1).isSome :=
          AList.lookup_isSome.2 (AList.mem_keys.2 (List.mem_map_of_mem hmem))
        have hlen := FiniteMaps.length_erase hsome
        exact ih (by omega)
    next hroom => omega

theorem length_openAssembly_le (h : r.assemblies.entries.length ≤ remoteControlSegmentAssemblyMaxCount) (c : ClientId)
    (streamId : StreamId) (metadata : ClientSegmentMetadata) (now : Instant) :
    (r.openAssembly c streamId metadata now).assemblies.entries.length ≤ remoteControlSegmentAssemblyMaxCount := by
  unfold openAssembly
  cases hslot : r.assemblies.lookup c with
  | none =>
    have hevict : r.evictAssembliesIfFull.assemblies.entries.length < remoteControlSegmentAssemblyMaxCount :=
      length_evictLoop_lt (Nat.le_refl _)
    exact Nat.le_trans (length_insert_le ..) hevict
  | some a =>
    dsimp only
    split
    · rwa [length_insert_of_isSome (by rw [hslot]; rfl)]
    · exact h

theorem length_observe_le (h : r.assemblies.entries.length ≤ remoteControlSegmentAssemblyMaxCount) (e : ClientEnvelope)
    (now : Instant) : (r.observe fromSlice e now).1.assemblies.entries.length ≤ remoteControlSegmentAssemblyMaxCount := by
  unfold observe
  split
  next segmentId _ _ messageChunkBase64 _ =>
    split
    next => exact h
    next => exact h
    next metadata streamId _ _ =>
      split
      · exact h
      split
      · exact Nat.le_trans (length_removeAssembly_le ..) h
      dsimp only
      rw [lookup_openAssembly]
      dsimp only
      have hopen := length_openAssembly_le h e.clientId streamId metadata now
      generalize (ClientSegmentAssembly.update fromSlice _ metadata segmentId messageChunkBase64 now).1 = a
      rw [← length_insert_of_isSome (by rw [lookup_openAssembly]; rfl) a] at hopen
      split
      · exact hopen
      · exact hopen
      · exact Nat.le_trans (length_removeAssembly_le ..) hopen
      · exact Nat.le_trans (length_removeAssembly_le ..) hopen
  next => exact h

theorem Bounded.observe (h : r.Bounded) (e : ClientEnvelope) (now : Instant) : (r.observe fromSlice e now).1.Bounded := by
  refine ⟨length_observe_le h.count e now, fun c a ha => ?_⟩
  by_cases hc : c = e.clientId
  · subst hc
    rw [lookup_observe] at ha
    exact fits_observeSlot (h.fits _) e now a ha
  · rcases lookup_observe_of_ne fromSlice hc now with hsame | ⟨-, hnone⟩
    · exact h.fits c a (by rwa [hsame] at ha)
    · rw [hnone] at ha
      exact nomatch ha

theorem Bounded.erase (h : r.Bounded) (c : ClientId) : (r.invalidateClient c).Bounded := by
  refine ⟨Nat.le_trans (length_erase_le ..) h.count, fun c' a ha => ?_⟩
  by_cases hc : c' = c
  · subst hc
    exact nomatch (AList.lookup_erase _ _).symm.trans ha
  · exact h.fits c' a ((AList.lookup_erase_ne hc).symm.trans ha)

theorem Bounded.step (h : r.Bounded) (action : ReassemblerAction) : (r.step fromSlice action).Bounded := by
  cases action with
  | observe e now => exact h.observe e now
  | invalidateStream c streamId =>
    unfold ClientSegmentReassembler.step invalidateStream removeAssembly
    dsimp only
    split
    · exact h.erase c
    · exact h
  | invalidateClient c => exact h.erase c

/-- The bounds hold of every state a reassembler reaches. -/
theorem bounded_run (actions : List ReassemblerAction) : (Runs.run (step fromSlice) {} actions).Bounded :=
  Runs.run_invariant (fun _ action h => h.step action) ⟨by decide, fun _ _ ha => nomatch ha⟩ actions

end ClientSegmentReassembler

end Codex.RemoteControl
