/-
How a server envelope is cut into chunks that fit the backend's limit.

Source: app-server-transport/src/transport/remote_control/segment.rs
(`split_server_envelope_for_transport`).
-/
import Codex.Lib.Base64
import Codex.RemoteControl
import Mathlib.Algebra.Order.Floor.Div

namespace Codex.RemoteControl

variable {Outgoing : Type}

def remoteControlSegmentTargetBytes : Nat := 100 * 1024
def remoteControlSegmentMaxBytes : Nat := 150 * 1024
def remoteControlReassembledMaxBytes : Nat := 100 * 1024 * 1024
def remoteControlSegmentCountMax : Nat := 1024

/-- `raw.chunks(chunk_size)` -/
def chunks (chunkSize : Nat) (raw : Bytes) : List Bytes :=
  (List.range (raw.length ⌈/⌉ chunkSize)).map fun i => (raw.drop (i * chunkSize)).take chunkSize

def serializedLen (serde : Serializer Outgoing) (e : ServerEnvelope Outgoing) : Option Nat :=
  (serde.envelope e).map List.length

def buildChunkEnvelope (e : ServerEnvelope Outgoing) (segmentId segmentCount messageSizeBytes : Nat) (chunk : Bytes) :
    Option (ServerEnvelope Outgoing) :=
  if remoteControlSegmentCountMax < segmentCount then none
  else some { e with
    event := .serverMessageChunk (.ofNat _ segmentId) (.ofNat _ segmentCount) (.ofNat _ messageSizeBytes) (Base64.encode chunk) }

def serializedChunkLen (serde : Serializer Outgoing) (e : ServerEnvelope Outgoing)
    (segmentId segmentCount messageSizeBytes : Nat) (chunk : Bytes) : Option Nat := do
  serializedLen serde (← buildChunkEnvelope e segmentId segmentCount messageSizeBytes chunk)

/-- Every chunk can be written within the limit. -/
def segmentsFit (serde : Serializer Outgoing) (e : ServerEnvelope Outgoing) (raw : Bytes) (chunkSize segmentCount : Nat) :
    Bool :=
  (chunks chunkSize raw).zipIdx.all fun (chunk, segmentId) =>
    match serializedChunkLen serde e segmentId segmentCount raw.length chunk with
    | some size => decide (size ≤ remoteControlSegmentMaxBytes)
    | none => false

def chunkSizeFor (size segmentCount : Nat) : Nat := max 1 (size ⌈/⌉ segmentCount)

def nextSegmentCount (size chunkSize segmentCount : Nat) : Nat :=
  if chunkSizeFor size (segmentCount + 1) = chunkSize then size else segmentCount + 1

theorem chunkSizeFor_next_lt {size segmentCount : Nat} (h : chunkSizeFor size segmentCount ≠ 1) :
    chunkSizeFor size (nextSegmentCount size (chunkSizeFor size segmentCount)
      (size ⌈/⌉ chunkSizeFor size segmentCount)) < chunkSizeFor size segmentCount := by
  generalize hc : chunkSizeFor size segmentCount = chunkSize at h ⊢
  have hpos : 0 < chunkSize := by rw [← hc]; exact Nat.lt_of_lt_of_le Nat.one_pos (le_max_left ..)
  unfold nextSegmentCount
  split
  next heq =>
    unfold chunkSizeFor
    rcases Nat.eq_zero_or_pos size with rfl | hsize
    · simp only [zero_ceilDiv, zero_le_one, sup_of_le_left]
      omega
    · have hone : size ⌈/⌉ size ≤ 1 := (ceilDiv_le_iff_le_mul hsize).2 (by omega)
      omega
  next hne =>
    have hle : size ≤ chunkSize * (size ⌈/⌉ chunkSize) := (ceilDiv_le_iff_le_mul hpos).1 le_rfl
    have hnext : size ⌈/⌉ (size ⌈/⌉ chunkSize + 1) ≤ chunkSize := by
      rw [ceilDiv_le_iff_le_mul (by omega), Nat.add_mul, Nat.mul_comm (size ⌈/⌉ chunkSize)]
      omega
    unfold chunkSizeFor at hne ⊢
    omega

/-- The loop over the number of segments. -/
def splitLoop (serde : Serializer Outgoing) (e : ServerEnvelope Outgoing) (raw : Bytes) (segmentCount : Nat) :
    Option (List (ServerEnvelope Outgoing)) :=
  let chunkSize := chunkSizeFor raw.length segmentCount
  let segmentCount := raw.length ⌈/⌉ chunkSize
  if segmentsFit serde e raw chunkSize segmentCount then
    (chunks chunkSize raw).zipIdx.mapM fun (chunk, segmentId) =>
      buildChunkEnvelope e segmentId segmentCount raw.length chunk
  else if chunkSize = 1 then some []
  else splitLoop serde e raw (nextSegmentCount raw.length chunkSize segmentCount)
termination_by chunkSizeFor raw.length segmentCount
decreasing_by exact chunkSizeFor_next_lt ‹_›

def splitServerEnvelopeForTransport (serde : Serializer Outgoing) (e : ServerEnvelope Outgoing) :
    Option (List (ServerEnvelope Outgoing)) :=
  match e.event with
  | .serverMessage message => do
    if (← serializedLen serde e) ≤ remoteControlSegmentMaxBytes then return [e]
    let raw ← serde.message message
    let messageSizeBytes := raw.length
    if remoteControlReassembledMaxBytes < messageSizeBytes then return []
    let minimalSegmentCount := min (max messageSizeBytes 1) remoteControlSegmentCountMax
    if remoteControlSegmentMaxBytes < (← serializedChunkLen serde e 0 minimalSegmentCount messageSizeBytes (raw.take 1)) then
      return []
    splitLoop serde e raw (max 2 (messageSizeBytes ⌈/⌉ remoteControlSegmentTargetBytes))
  | _ => some [e]

end Codex.RemoteControl
