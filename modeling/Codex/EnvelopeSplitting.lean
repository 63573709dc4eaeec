/-
Splitting a server envelope: what comes out is the message again, in chunks that
fit (`split_sound`), and which messages are dropped although some number of
chunks would do (`split_nonempty_iff`).

The loop tries one count after another as long as the next one makes the chunks shorter.
Else it goes on with one byte a chunk.

Source: app-server-transport/src/transport/remote_control/segment.rs
(`split_server_envelope_for_transport`).
-/
import Codex.ServerSegments

namespace Codex.RemoteControl

variable {Outgoing : Type} {serde : Serializer Outgoing} {e : ServerEnvelope Outgoing} {raw : Bytes}

/-! ## Chunks -/

variable (size : Nat) {chunkSize segmentCount n idLen : Nat}

theorem chunkSizeFor_pos (segmentCount : Nat) : 0 < chunkSizeFor size segmentCount :=
  Nat.lt_of_lt_of_le Nat.one_pos (le_max_left ..)

theorem le_mul_ceilDiv (hpos : 0 < chunkSize) (size : Nat) : size ≤ chunkSize * (size ⌈/⌉ chunkSize) :=
  (ceilDiv_le_iff_le_mul hpos).1 le_rfl

theorem length_chunks (chunkSize : Nat) : (chunks chunkSize raw).length = raw.length ⌈/⌉ chunkSize := by
  simp [chunks]

theorem flatten_take_chunks (chunkSize n : Nat) :
    ((List.range n).map fun i => (raw.drop (i * chunkSize)).take chunkSize).flatten = raw.take (n * chunkSize) := by
  induction n with
  | zero => simp
  | succ n ih =>
    rw [List.range_succ, List.map_append, List.flatten_append, ih, Nat.add_mul, Nat.one_mul, List.take_add]
    simp

theorem flatten_chunks (hpos : 0 < chunkSize) : (chunks chunkSize raw).flatten = raw := by
  rw [chunks, flatten_take_chunks]
  apply List.take_of_length_le
  rw [Nat.mul_comm]
  exact le_mul_ceilDiv hpos _

/-! ## The chunks' envelopes -/

def chunkEnvelope (e : ServerEnvelope Outgoing) (segmentId segmentCount messageSizeBytes : Nat) (chunk : Bytes) :
    ServerEnvelope Outgoing :=
  { e with
    event := .serverMessageChunk (.ofNat _ segmentId) (.ofNat _ segmentCount) (.ofNat _ messageSizeBytes) (Base64.encode chunk) }

/-- A chunk's place, the number of chunks, and the length of the message. -/
def ServerEvent.header : ServerEvent Outgoing → Option (Nat × Nat × Nat)
  | .serverMessageChunk segmentId segmentCount messageSizeBytes _ =>
    some (segmentId.val, segmentCount.val, messageSizeBytes.val)
  | .serverMessage .. | .ack | .pong .. => none

def ServerEvent.chunk : ServerEvent Outgoing → Option Bytes
  | .serverMessageChunk _ _ _ messageChunkBase64 => Base64.decode messageChunkBase64
  | .serverMessage .. | .ack | .pong .. => none

/-- The envelopes carry the message, all of it, in order, each within the limit. -/
structure Carries (serde : Serializer Outgoing) (e : ServerEnvelope Outgoing) (raw : Bytes)
    (envelopes : List (ServerEnvelope Outgoing)) : Prop where
  fits : ∀ e' ∈ envelopes, ∃ size, serializedLen serde e' = some size ∧ size ≤ remoteControlSegmentMaxBytes
  count : envelopes.length ≤ remoteControlSegmentCountMax
  headers : (envelopes.map fun e' => e'.event.header) =
    (List.range envelopes.length).map fun segmentId => some (segmentId, envelopes.length, raw.length)
  addressed : ∀ e' ∈ envelopes, e'.clientId = e.clientId ∧ e'.streamId = e.streamId ∧ e'.seqId = e.seqId
  message : ∃ pieces : List Bytes, (envelopes.map fun e' => e'.event.chunk) = pieces.map some ∧ pieces.flatten = raw

theorem buildChunkEnvelope_of_le (h : segmentCount ≤ remoteControlSegmentCountMax)
    (segmentId messageSizeBytes : Nat) (chunk : Bytes) :
    buildChunkEnvelope e segmentId segmentCount messageSizeBytes chunk =
      some (chunkEnvelope e segmentId segmentCount messageSizeBytes chunk) := by
  unfold buildChunkEnvelope
  rw [if_neg (by omega)]
  rfl

theorem segmentsFit_iff :
    segmentsFit serde e raw chunkSize segmentCount = true ↔ ∀ p ∈ (chunks chunkSize raw).zipIdx,
      ∃ size, serializedChunkLen serde e p.2 segmentCount raw.length p.1 = some size ∧
        size ≤ remoteControlSegmentMaxBytes := by
  unfold segmentsFit
  rw [List.all_eq_true]
  refine forall₂_congr fun p _ => ?_
  obtain ⟨chunk, segmentId⟩ := p
  cases hlen : serializedChunkLen serde e segmentId segmentCount raw.length chunk <;> simp [hlen]

theorem count_le_of_segmentsFit (h : segmentsFit serde e raw chunkSize segmentCount = true)
    (hne : chunks chunkSize raw ≠ []) : segmentCount ≤ remoteControlSegmentCountMax := by
  obtain ⟨chunk, rest, hchunks⟩ := List.exists_cons_of_ne_nil hne
  have hfirst : (chunk, 0) ∈ (chunks chunkSize raw).zipIdx := by
    rw [hchunks]
    exact List.mem_cons_self
  obtain ⟨size, hlen, -⟩ := segmentsFit_iff.1 h _ hfirst
  by_contra hover
  unfold serializedChunkLen buildChunkEnvelope at hlen
  rw [if_pos (by omega)] at hlen
  cases hlen

theorem buildChunks_eq (h : segmentCount ≤ remoteControlSegmentCountMax) :
    ((chunks chunkSize raw).zipIdx.mapM fun (chunk, segmentId) =>
      buildChunkEnvelope e segmentId segmentCount raw.length chunk) =
      some ((chunks chunkSize raw).zipIdx.map fun p => chunkEnvelope e p.2 segmentCount raw.length p.1) := by
  rw [← Option.pure_def, ← List.mapM_pure]
  congr 1
  funext p
  exact buildChunkEnvelope_of_le h ..

theorem header_chunkEnvelope {segmentId : Nat} (hid : segmentId < segmentCount)
    (hcount : segmentCount ≤ remoteControlSegmentCountMax) (hraw : raw.length ≤ remoteControlReassembledMaxBytes)
    (chunk : Bytes) :
    (chunkEnvelope e segmentId segmentCount raw.length chunk).event.header = some (segmentId, segmentCount, raw.length) := by
  unfold remoteControlSegmentCountMax at hcount
  unfold remoteControlReassembledMaxBytes at hraw
  simp only [chunkEnvelope, ServerEvent.header, Fin.ofNat]
  rw [Nat.mod_eq_of_lt (by omega), Nat.mod_eq_of_lt (by omega), Nat.mod_eq_of_lt (by omega)]

theorem carries_chunks (hpos : 0 < chunkSize) (hraw : raw.length ≤ remoteControlReassembledMaxBytes)
    (hfit : segmentsFit serde e raw chunkSize (raw.length ⌈/⌉ chunkSize) = true)
    (hcount : raw.length ⌈/⌉ chunkSize ≤ remoteControlSegmentCountMax) :
    Carries serde e raw ((chunks chunkSize raw).zipIdx.map fun p =>
      chunkEnvelope e p.2 (raw.length ⌈/⌉ chunkSize) raw.length p.1) := by
  have hlength : ((chunks chunkSize raw).zipIdx.map fun p =>
      chunkEnvelope e p.2 (raw.length ⌈/⌉ chunkSize) raw.length p.1).length = raw.length ⌈/⌉ chunkSize := by
    rw [List.length_map, List.length_zipIdx, length_chunks]
  refine ⟨?_, ?_, ?_, ?_, ?_⟩
  · intro e' he'
    obtain ⟨p, hp, rfl⟩ := List.mem_map.1 he'
    obtain ⟨size, hlen, hle⟩ := segmentsFit_iff.1 hfit p hp
    unfold serializedChunkLen at hlen
    rw [buildChunkEnvelope_of_le hcount] at hlen
    exact ⟨size, hlen, hle⟩
  · rw [hlength]
    exact hcount
  · rw [hlength]
    apply List.ext_getElem
    · simp [length_chunks]
    · intro i hi _
      have hi' : i < raw.length ⌈/⌉ chunkSize := by simpa [length_chunks] using hi
      simp [header_chunkEnvelope hi' hcount hraw]
  · intro e' he'
    obtain ⟨p, -, rfl⟩ := List.mem_map.1 he'
    exact ⟨rfl, rfl, rfl⟩
  · refine ⟨chunks chunkSize raw, ?_, flatten_chunks hpos⟩
    rw [List.map_map]
    have hchunk : ∀ p : Bytes × Nat,
        (chunkEnvelope e p.2 (raw.length ⌈/⌉ chunkSize) raw.length p.1).event.chunk = some p.1 :=
      fun p => Base64.decode_encode p.1
    simp only [Function.comp_def, hchunk]
    rw [show (fun p : Bytes × Nat => some p.1) = some ∘ Prod.fst from rfl, ← List.map_map, List.zipIdx_map_fst]

/-! ## The loop ends -/

/-- The loop, given up after `turns` turns. -/
def splitLoopWithin (serde : Serializer Outgoing) (e : ServerEnvelope Outgoing) (raw : Bytes) :
    Nat → Nat → Option (Option (List (ServerEnvelope Outgoing)))
  | 0, _ => none
  | turns + 1, segmentCount =>
    let chunkSize := chunkSizeFor raw.length segmentCount
    let segmentCount := raw.length ⌈/⌉ chunkSize
    if segmentsFit serde e raw chunkSize segmentCount then
      some ((chunks chunkSize raw).zipIdx.mapM fun (chunk, segmentId) =>
        buildChunkEnvelope e segmentId segmentCount raw.length chunk)
    else if chunkSize = 1 then some (some [])
    else splitLoopWithin serde e raw turns (nextSegmentCount raw.length chunkSize segmentCount)

/-- As many turns as the first chunk has bytes are enough. -/
theorem splitLoopWithin_eq {turns : Nat} (h : chunkSizeFor raw.length segmentCount ≤ turns) :
    splitLoopWithin serde e raw turns segmentCount = some (splitLoop serde e raw segmentCount) := by
  induction turns generalizing segmentCount with
  | zero => exact absurd h (Nat.not_le.2 (chunkSizeFor_pos ..))
  | succ turns ih =>
    unfold splitLoopWithin splitLoop
    dsimp only
    split
    next => rfl
    next =>
      split
      next => rfl
      next hone =>
        apply ih
        have hlt := chunkSizeFor_next_lt hone
        omega

/-- One byte a chunk at least, so that the turns are no more than the bytes. -/
theorem chunkSizeFor_le (hcount : 0 < segmentCount) : chunkSizeFor size segmentCount ≤ max 1 size := by
  unfold chunkSizeFor
  have hle : size ⌈/⌉ segmentCount ≤ size := (ceilDiv_le_iff_le_mul hcount).2 (Nat.le_mul_of_pos_left _ hcount)
  omega

theorem splitLoop_sound (hraw : raw.length ≤ remoteControlReassembledMaxBytes)
    {envelopes} (h : splitLoop serde e raw segmentCount = some envelopes) :
    envelopes = [] ∨ Carries serde e raw envelopes := by
  induction segmentCount using splitLoop.induct serde e raw with
  | case1 segmentCount chunkSize count hfit =>
    unfold splitLoop at h
    rw [if_pos hfit] at h
    rcases List.eq_nil_or_concat (chunks chunkSize raw) with hnil | ⟨_, _, hconcat⟩
    · left
      rw [hnil] at h
      exact (Option.some.inj h).symm
    · right
      have hcount : count ≤ remoteControlSegmentCountMax := count_le_of_segmentsFit hfit (by rw [hconcat]; simp)
      rw [buildChunks_eq hcount] at h
      cases h
      exact carries_chunks (chunkSizeFor_pos ..) hraw hfit hcount
  | case2 segmentCount chunkSize count hfit hone =>
    unfold splitLoop at h
    rw [if_neg hfit, if_pos hone] at h
    exact Or.inl (Option.some.inj h).symm
  | case3 segmentCount chunkSize count hfit hone ih =>
    unfold splitLoop at h
    rw [if_neg hfit, if_neg hone] at h
    exact ih h


/-- **Splitting ends, and what comes out of it is the envelope itself when it needs no splitting,
nothing, or the message in chunks.** -/
theorem split_sound (serde : Serializer Outgoing) (e : ServerEnvelope Outgoing) :
    (∀ raw segmentCount, 0 < segmentCount →
      splitLoopWithin serde e raw (max 1 raw.length) segmentCount = some (splitLoop serde e raw segmentCount)) ∧
    ∀ envelopes, splitServerEnvelopeForTransport serde e = some envelopes →
      (envelopes = [e] ∧ ((∀ message, e.event ≠ .serverMessage message) ∨
        ∃ whole, serializedLen serde e = some whole ∧ whole ≤ remoteControlSegmentMaxBytes)) ∨
      envelopes = [] ∨
      ∃ message raw, e.event = .serverMessage message ∧ serde.message message = some raw ∧ Carries serde e raw envelopes := by
  refine ⟨fun raw segmentCount hcount => splitLoopWithin_eq (chunkSizeFor_le _ hcount), ?_⟩
  intro envelopes h
  unfold splitServerEnvelopeForTransport at h
  split at h
  next message hevent =>
    obtain ⟨whole, hwhole, h⟩ := Option.bind_eq_some_iff.1 h
    split at h
    next hle => exact Or.inl ⟨(Option.some.inj h).symm, Or.inr ⟨whole, hwhole, hle⟩⟩
    next hover =>
      obtain ⟨raw, hraw, h⟩ := Option.bind_eq_some_iff.1 h
      dsimp only at h
      split at h
      next => exact Or.inr (Or.inl (Option.some.inj h).symm)
      next hlimit =>
        obtain ⟨size, -, h⟩ := Option.bind_eq_some_iff.1 h
        split at h
        next => exact Or.inr (Or.inl (Option.some.inj h).symm)
        next =>
          rcases splitLoop_sound (Nat.not_lt.1 hlimit) h with hnil | hcarries
          · exact Or.inr (Or.inl hnil)
          · exact Or.inr (Or.inr ⟨message, raw, hevent, hraw, hcarries⟩)
  next hevent => exact Or.inl ⟨(Option.some.inj h).symm, Or.inl hevent⟩

/-! ## What the loop leaves out -/

/-- Cut into so many equal chunks, the message fits. -/
def FitsAt (serde : Serializer Outgoing) (e : ServerEnvelope Outgoing) (raw : Bytes) (segmentCount : Nat) : Prop :=
  segmentsFit serde e raw (chunkSizeFor raw.length segmentCount)
    (raw.length ⌈/⌉ chunkSizeFor raw.length segmentCount) = true

def firstSegmentCount (size : Nat) : Nat := max 2 (size ⌈/⌉ remoteControlSegmentTargetBytes)

/-- Up to this count every count more makes the chunks shorter. -/
def Shortens (size first segmentCount : Nat) : Prop :=
  first ≤ segmentCount ∧ ∀ n, first ≤ n → n < segmentCount → chunkSizeFor size (n + 1) < chunkSizeFor size n

theorem chunkSizeFor_antitone {m : Nat} (hm : 0 < m) (h : m ≤ n) : chunkSizeFor size n ≤ chunkSizeFor size m := by
  unfold chunkSizeFor
  have hle : size ⌈/⌉ n ≤ size ⌈/⌉ m := by
    rw [ceilDiv_le_iff_le_mul (by omega)]
    exact Nat.le_trans (le_mul_ceilDiv hm size) (Nat.mul_le_mul_right _ h)
  omega

theorem shortens_refl (first : Nat) : Shortens size first first :=
  ⟨le_rfl, fun _ hle hlt => absurd hlt (by omega)⟩

/-- Where the next count makes the chunks no shorter, the search has come to its end. -/
theorem Shortens.eq_of_stall {size first : Nat} (h : Shortens size first segmentCount)
    (hstall : chunkSizeFor size (first + 1) = chunkSizeFor size first) : segmentCount = first := by
  by_contra hne
  have hlt := h.2 first le_rfl (by have := h.1; omega)
  omega

theorem shortens_next {size first : Nat} (hlt : chunkSizeFor size (first + 1) < chunkSizeFor size first) :
    Shortens size first segmentCount ↔ segmentCount = first ∨ Shortens size (first + 1) segmentCount := by
  constructor
  · rintro ⟨hle, h⟩
    rcases Nat.eq_or_lt_of_le hle with rfl | hgt
    · exact Or.inl rfl
    · exact Or.inr ⟨hgt, fun n hn => h n (by omega)⟩
  · rintro (rfl | ⟨hle, h⟩)
    · exact shortens_refl ..
    · refine ⟨by omega, fun n hn hn' => ?_⟩
      rcases Nat.eq_or_lt_of_le hn with rfl | hgt
      · exact hlt
      · exact h n hgt hn'

theorem chunkSizeFor_one {size : Nat} (hcount : 0 < segmentCount) (h : size ≤ segmentCount) :
    chunkSizeFor size segmentCount = 1 := by
  unfold chunkSizeFor
  have hle : size ⌈/⌉ segmentCount ≤ 1 := (ceilDiv_le_iff_le_mul hcount).2 (by omega)
  omega

/-- A count that makes the chunks shorter than the count before is the number of chunks it makes. -/
theorem ceilDiv_chunkSizeFor_next {size : Nat} (hn : 0 < n)
    (hlt : chunkSizeFor size (n + 1) < chunkSizeFor size n) : size ⌈/⌉ chunkSizeFor size (n + 1) = n + 1 := by
  have hpos := chunkSizeFor_pos size (n + 1)
  have hmul : size ≤ (n + 1) * (size ⌈/⌉ (n + 1)) := le_mul_ceilDiv (by omega) size
  apply Nat.le_antisymm
  · rw [ceilDiv_le_iff_le_mul hpos, Nat.mul_comm]
    exact Nat.le_trans hmul (Nat.mul_le_mul_left _ (le_max_right ..))
  · by_contra hlow
    have hle : size ⌈/⌉ chunkSizeFor size (n + 1) ≤ n := by omega
    rw [ceilDiv_le_iff_le_mul hpos, Nat.mul_comm, ← ceilDiv_le_iff_le_mul hn] at hle
    have hcur : chunkSizeFor size n = max 1 (size ⌈/⌉ n) := rfl
    omega

/-- The loop finds a way exactly when one of the counts it comes to fits. -/
theorem splitLoop_ne_nil_iff (hraw : raw ≠ []) {segmentCount : Nat} (hpos : 0 < segmentCount)
    (hcount : chunkSizeFor raw.length segmentCount = 1 ∨
      raw.length ⌈/⌉ chunkSizeFor raw.length segmentCount = segmentCount) :
    (∃ envelopes, splitLoop serde e raw segmentCount = some envelopes ∧ envelopes ≠ []) ↔
      ∃ n, (Shortens raw.length segmentCount n ∨ n = raw.length) ∧ FitsAt serde e raw n := by
  have hsize : 0 < raw.length := List.length_pos_of_ne_nil hraw
  induction segmentCount using splitLoop.induct serde e raw with
  | case1 segmentCount chunkSize count hfit =>
    refine ⟨fun _ => ⟨segmentCount, Or.inl (shortens_refl ..), hfit⟩, fun _ => ?_⟩
    have hne : chunks chunkSize raw ≠ [] := by
      intro hnil
      have hflat : (chunks chunkSize raw).flatten = raw := flatten_chunks (chunkSizeFor_pos ..)
      rw [hnil] at hflat
      exact hraw hflat.symm
    unfold splitLoop
    rw [if_pos hfit]
    exact ⟨_, buildChunks_eq (count_le_of_segmentsFit hfit hne), by simpa using hne⟩
  | case2 segmentCount chunkSize count hfit hone =>
    constructor
    · rintro ⟨envelopes, h, hne⟩
      unfold splitLoop at h
      rw [if_neg hfit, if_pos hone] at h
      exact absurd (Option.some.inj h).symm hne
    · rintro ⟨n, hn, hfits⟩
      refine absurd ?_ hfit
      have hchunk : chunkSizeFor raw.length n = 1 := by
        rcases hn with hn | rfl
        · have hstall : chunkSizeFor raw.length (segmentCount + 1) = chunkSizeFor raw.length segmentCount := by
            have hle := chunkSizeFor_antitone raw.length hpos (Nat.le_add_right segmentCount 1)
            have hlow := chunkSizeFor_pos raw.length (segmentCount + 1)
            omega
          rw [hn.eq_of_stall hstall]
          exact hone
        · exact chunkSizeFor_one hsize le_rfl
      unfold FitsAt at hfits
      rw [hchunk] at hfits
      have hone' : chunkSizeFor raw.length segmentCount = 1 := hone
      show segmentsFit serde e raw (chunkSizeFor raw.length segmentCount)
        (raw.length ⌈/⌉ chunkSizeFor raw.length segmentCount) = true
      rw [hone']
      exact hfits
  | case3 segmentCount chunkSize count hfit hone ih =>
    have hcount' : count = segmentCount := hcount.resolve_left hone
    rw [splitLoop, if_neg hfit, if_neg hone]
    have hle := chunkSizeFor_antitone raw.length hpos (Nat.le_add_right segmentCount 1)
    by_cases hstall : chunkSizeFor raw.length (segmentCount + 1) = chunkSizeFor raw.length segmentCount
    · have hnext : nextSegmentCount raw.length chunkSize count = raw.length := by
        unfold nextSegmentCount
        rw [hcount', if_pos hstall]
      have honeSize := chunkSizeFor_one hsize (le_refl raw.length)
      rw [show nextSegmentCount raw.length (chunkSizeFor raw.length segmentCount)
        (raw.length ⌈/⌉ chunkSizeFor raw.length segmentCount) = raw.length from hnext]
      rw [hnext] at ih
      refine (ih hsize (Or.inl honeSize)).trans ?_
      constructor
      · rintro ⟨n, hn | rfl, hfits⟩
        · have hstallSize : chunkSizeFor raw.length (raw.length + 1) = chunkSizeFor raw.length raw.length := by
            rw [honeSize, chunkSizeFor_one (by omega) (by omega)]
          exact ⟨raw.length, Or.inr rfl, hn.eq_of_stall hstallSize ▸ hfits⟩
        · exact ⟨_, Or.inr rfl, hfits⟩
      · rintro ⟨n, hn | rfl, hfits⟩
        · rw [hn.eq_of_stall hstall] at hfits
          exact absurd hfits hfit
        · exact ⟨_, Or.inr rfl, hfits⟩
    · have hnext : nextSegmentCount raw.length chunkSize count = segmentCount + 1 := by
        unfold nextSegmentCount
        rw [hcount', if_neg hstall]
      have hlt : chunkSizeFor raw.length (segmentCount + 1) < chunkSizeFor raw.length segmentCount := by omega
      rw [show nextSegmentCount raw.length (chunkSizeFor raw.length segmentCount)
        (raw.length ⌈/⌉ chunkSizeFor raw.length segmentCount) = segmentCount + 1 from hnext]
      rw [hnext] at ih
      refine (ih (Nat.succ_pos _) (Or.inr (ceilDiv_chunkSizeFor_next hpos hlt))).trans ?_
      constructor
      · rintro ⟨n, hn, hfits⟩
        exact ⟨n, hn.imp_left fun h => (shortens_next hlt).2 (Or.inr h), hfits⟩
      · rintro ⟨n, hn, hfits⟩
        rcases hn with hn | rfl
        · rcases (shortens_next hlt).1 hn with rfl | hn
          · exact absurd hfits hfit
          · exact ⟨n, Or.inl hn, hfits⟩
        · exact ⟨_, Or.inr rfl, hfits⟩

/-- The counts the search comes to: from the first one on, one more as long as that makes the
chunks shorter, and a chunk for each byte. -/
def Tried (size segmentCount : Nat) : Prop := Shortens size (firstSegmentCount size) segmentCount ∨ segmentCount = size

/-- The check before the search. -/
def MinimalChunkFits (serde : Serializer Outgoing) (e : ServerEnvelope Outgoing) (raw : Bytes) : Prop :=
  ∃ size, serializedChunkLen serde e 0 (min (max raw.length 1) remoteControlSegmentCountMax) raw.length (raw.take 1) =
    some size ∧ size ≤ remoteControlSegmentMaxBytes

/-- Some number of chunks from 2 on would do. -/
def CanSplit (serde : Serializer Outgoing) (e : ServerEnvelope Outgoing) (raw : Bytes) : Prop :=
  ∃ n, 2 ≤ n ∧ n ≤ remoteControlSegmentCountMax ∧ FitsAt serde e raw n

theorem firstSegmentCount_exact : chunkSizeFor size (firstSegmentCount size) = 1 ∨
      size ⌈/⌉ chunkSizeFor size (firstSegmentCount size) = firstSegmentCount size := by
  by_cases hone : chunkSizeFor size (firstSegmentCount size) = 1
  · exact Or.inl hone
  right
  have htwo : 2 ≤ firstSegmentCount size := le_max_left ..
  have hpos := chunkSizeFor_pos size (firstSegmentCount size)
  have hchunk : chunkSizeFor size (firstSegmentCount size) = max 1 (size ⌈/⌉ firstSegmentCount size) := rfl
  have hmul := le_mul_ceilDiv (show 0 < firstSegmentCount size by omega) size
  apply Nat.le_antisymm
  · rw [ceilDiv_le_iff_le_mul hpos, Nat.mul_comm]
    exact Nat.le_trans hmul (Nat.mul_le_mul_left _ (by omega))
  · by_contra hlow
    have hle : size ⌈/⌉ chunkSizeFor size (firstSegmentCount size) ≤ firstSegmentCount size - 1 := by omega
    rw [ceilDiv_le_iff_le_mul hpos] at hle
    have htarget : 0 < remoteControlSegmentTargetBytes := by decide
    rcases max_choice 2 (size ⌈/⌉ remoteControlSegmentTargetBytes) with hmax | hmax
    · have hfirst : firstSegmentCount size = 2 := hmax
      rw [hfirst] at hle hchunk hone
      have hhalf : size ⌈/⌉ 2 ≤ (size + 1) / 2 := (ceilDiv_le_iff_le_mul (by omega)).2 (by omega)
      omega
    · have hfirst : firstSegmentCount size = size ⌈/⌉ remoteControlSegmentTargetBytes := hmax
      have hshort : chunkSizeFor size (firstSegmentCount size) ≤ remoteControlSegmentTargetBytes := by
        have hdiv : size ⌈/⌉ firstSegmentCount size ≤ remoteControlSegmentTargetBytes := by
          rw [ceilDiv_le_iff_le_mul (by omega), hfirst, Nat.mul_comm]
          exact le_mul_ceilDiv htarget size
        omega
      have hbound : size ⌈/⌉ remoteControlSegmentTargetBytes ≤ firstSegmentCount size - 1 := by
        rw [ceilDiv_le_iff_le_mul htarget]
        exact Nat.le_trans hle (Nat.mul_le_mul_right _ hshort)
      omega

/-- Whether anything comes out: the checks before the search, and then a count that it comes to. -/
theorem split_ne_nil_iff {message} (hevent : e.event = .serverMessage message)
    (hmessage : serde.message message = some raw) (hlimit : raw.length ≤ remoteControlReassembledMaxBytes) :
    (∃ envelopes, splitServerEnvelopeForTransport serde e = some envelopes ∧ envelopes ≠ []) ↔
      ∃ whole, serializedLen serde e = some whole ∧ (whole ≤ remoteControlSegmentMaxBytes ∨
        raw ≠ [] ∧ MinimalChunkFits serde e raw ∧ ∃ n, Tried raw.length n ∧ FitsAt serde e raw n) := by
  unfold splitServerEnvelopeForTransport
  rw [hevent]
  cases hwhole : serializedLen serde e with
  | none => simp
  | some whole =>
    simp only [Option.bind_eq_bind, Option.bind_some, Option.some.injEq, exists_eq_left']
    split
    next hle => exact ⟨fun _ => Or.inl hle, fun _ => ⟨[e], rfl, by simp⟩⟩
    next hover =>
      simp only [hmessage, Option.bind_some, hover, false_or]
      rw [if_neg (by omega)]
      cases hminimal : serializedChunkLen serde e 0 (min (max raw.length 1) remoteControlSegmentCountMax) raw.length
          (raw.take 1) with
      | none => simp [MinimalChunkFits, hminimal]
      | some size =>
        simp only [Option.bind_some, MinimalChunkFits, hminimal, Option.some.injEq, exists_eq_left']
        by_cases hfits : remoteControlSegmentMaxBytes < size
        · rw [if_pos hfits]
          constructor
          · rintro ⟨envelopes, h, hne⟩
            exact absurd (Option.some.inj h).symm hne
          · rintro ⟨-, hle, -⟩
            omega
        · rw [if_neg hfits]
          by_cases hraw : raw = []
          · constructor
            · rintro ⟨envelopes, h, hne⟩
              subst hraw
              unfold splitLoop at h
              simp [chunks, segmentsFit] at h
              exact absurd h hne
            · rintro ⟨hne, -⟩
              exact absurd hraw hne
          · have hloop := @splitLoop_ne_nil_iff _ serde e _ hraw _
              (show 0 < firstSegmentCount raw.length from Nat.lt_of_lt_of_le Nat.two_pos (le_max_left ..))
              (firstSegmentCount_exact raw.length)
            exact hloop.trans ⟨fun h => ⟨hraw, Nat.not_lt.1 hfits, h⟩, fun h => h.2.2⟩

/-- **A message that could be split is not dropped exactly when it fits unsplit or the search
comes to a count that fits.** -/
theorem split_nonempty_iff {message : Outgoing} (hevent : e.event = .serverMessage message)
    (hmessage : serde.message message = some raw) (hlimit : raw.length ≤ remoteControlReassembledMaxBytes) :
    (CanSplit serde e raw →
      ∃ envelopes, splitServerEnvelopeForTransport serde e = some envelopes ∧ envelopes ≠ []) ↔
      (CanSplit serde e raw → ∃ whole, serializedLen serde e = some whole ∧ (whole ≤ remoteControlSegmentMaxBytes ∨
        raw ≠ [] ∧ MinimalChunkFits serde e raw ∧ ∃ n, Tried raw.length n ∧ FitsAt serde e raw n)) :=
  imp_congr_right fun _ => split_ne_nil_iff hevent hmessage hlimit

/-! ## Long ids -/

def bytesOf (text : Text) : Bytes := text.map fun c => UInt8.ofNat c.toNat

/-- For texts that JSON does not escape; a message is the text it is written as. -/
def jsonEvent : ServerEvent Text → Text
  | .serverMessage message => "\"type\":\"server_message\",\"message\":".toList ++ message
  | .serverMessageChunk segmentId segmentCount messageSizeBytes messageChunkBase64 =>
    "\"type\":\"server_message_chunk\",\"segment_id\":".toList ++ Nat.toDigits 10 segmentId.val ++
      ",\"segment_count\":".toList ++ Nat.toDigits 10 segmentCount.val ++
      ",\"message_size_bytes\":".toList ++ Nat.toDigits 10 messageSizeBytes.val ++
      ",\"message_chunk_base64\":\"".toList ++ messageChunkBase64 ++ "\"".toList
  | .ack => "\"type\":\"ack\"".toList
  | .pong .active => "\"type\":\"pong\",\"status\":\"active\"".toList
  | .pong .unknown => "\"type\":\"pong\",\"status\":\"unknown\"".toList

def jsonEnvelope (e : ServerEnvelope Text) : Text :=
  "\x7b".toList ++ jsonEvent e.event ++ ",\"client_id\":\"".toList ++ e.clientId ++ "\",\"stream_id\":\"".toList ++
    e.streamId ++ "\",\"seq_id\":".toList ++ Nat.toDigits 10 e.seqId.val ++ "\x7d".toList

def jsonSerializer : Serializer Text where
  envelope e := some (bytesOf (jsonEnvelope e))
  message text := some (bytesOf text)

def longResult (resultLen : Nat) : Text :=
  "\x7b\"id\":1,\"result\":\"".toList ++ List.replicate resultLen 'a' ++ "\"\x7d".toList

def longEnvelope (idLen resultLen : Nat) : ServerEnvelope Text :=
  { event := .serverMessage (longResult resultLen), clientId := List.replicate idLen 'c', seqId := 1, streamId := "s".toList }

theorem length_longResult (resultLen : Nat) : (bytesOf (longResult resultLen)).length = resultLen + 20 := by
  unfold bytesOf longResult
  simp

theorem serializedLen_jsonSerializer (e : ServerEnvelope Text) :
    serializedLen jsonSerializer e = some ((jsonEvent e.event).length + e.clientId.length + e.streamId.length +
      (Nat.toDigits 10 e.seqId.val).length + 42) := by
  show some (bytesOf (jsonEnvelope e)).length = _
  unfold bytesOf jsonEnvelope
  simp
  omega

theorem serializedLen_longEnvelope (idLen resultLen : Nat) :
    serializedLen jsonSerializer (longEnvelope idLen resultLen) = some (idLen + resultLen + 98) := by
  rw [serializedLen_jsonSerializer]
  unfold longEnvelope jsonEvent longResult
  have hone : (Nat.toDigits 10 1).length = 1 := rfl
  simp
  omega

theorem serializedChunkLen_longEnvelope (idLen resultLen : Nat) {segmentId size : Nat} (hid : segmentId < 2 ^ 64)
    (hcount : segmentCount ≤ remoteControlSegmentCountMax) (hsize : size < 2 ^ 64) (chunk : Bytes) :
    serializedChunkLen jsonSerializer (longEnvelope idLen resultLen) segmentId segmentCount size chunk =
      some (idLen + 152 + (Nat.toDigits 10 segmentId).length + (Nat.toDigits 10 segmentCount).length +
        (Nat.toDigits 10 size).length + (Base64.encode chunk).length) := by
  unfold serializedChunkLen
  rw [buildChunkEnvelope_of_le hcount]
  unfold remoteControlSegmentCountMax at hcount
  have hcount : segmentCount < 2 ^ 64 := by omega
  rw [Option.bind_eq_bind, Option.bind_some, serializedLen_jsonSerializer]
  unfold chunkEnvelope longEnvelope jsonEvent
  simp only [Fin.ofNat, Nat.mod_eq_of_lt hid, Nat.mod_eq_of_lt hcount, Nat.mod_eq_of_lt hsize]
  have hone : (Nat.toDigits 10 1).length = 1 := rfl
  simp
  omega

theorem segmentsFit_longEnvelope {resultLen : Nat} (hraw : raw.length < 10 ^ 4)
    (hcount : (chunks chunkSize raw).length ≤ remoteControlSegmentCountMax) (hle : segmentCount ≤ remoteControlSegmentCountMax)
    (hfits : idLen + 164 + (chunkSize + 2) / 3 * 4 ≤ remoteControlSegmentMaxBytes) :
    segmentsFit jsonSerializer (longEnvelope idLen resultLen) raw chunkSize segmentCount = true := by
  refine segmentsFit_iff.2 fun p hp => ?_
  unfold remoteControlSegmentCountMax at hcount
  have hid : p.2 < (chunks chunkSize raw).length := by
    have hlt := (List.mem_zipIdx hp).2.1
    omega
  refine ⟨_, serializedChunkLen_longEnvelope idLen resultLen (by omega) hle (by omega) p.1, ?_⟩
  have hchunk : p.1.length ≤ chunkSize := by
    have hmem : p.1 ∈ chunks chunkSize raw := List.fst_mem_of_mem_zipIdx hp
    obtain ⟨i, -, hi⟩ := List.mem_map.1 hmem
    rw [← hi]
    exact List.length_take_le ..
  unfold remoteControlSegmentCountMax at hle
  have hdigits : ∀ {n}, n < 10 ^ 4 → (Nat.toDigits 10 n).length ≤ 4 :=
    fun h => (Nat.length_toDigits_le_iff (by omega) (by omega)).2 h
  have hidDigits := hdigits (show p.2 < 10 ^ 4 by omega)
  have hcountDigits := hdigits (show segmentCount < 10 ^ 4 by omega)
  have hsizeDigits := hdigits hraw
  rw [Base64.length_encode]
  omega

theorem not_segmentsFit_longEnvelope {resultLen : Nat} (hraw : 0 < raw.length)
    (hlimit : raw.length < 2 ^ 64) (hpos : 0 < chunkSize) (hle : chunkSize ≤ raw.length)
    (hover : remoteControlSegmentMaxBytes < idLen + 155 + (chunkSize + 2) / 3 * 4) :
    ¬ segmentsFit jsonSerializer (longEnvelope idLen resultLen) raw chunkSize segmentCount = true := by
  intro hfit
  have hsome : 0 < raw.length ⌈/⌉ chunkSize := by
    by_contra hnone
    have hzero : raw.length ⌈/⌉ chunkSize ≤ 0 := by omega
    rw [ceilDiv_le_iff_le_mul hpos] at hzero
    omega
  have hfirst : (raw.take chunkSize, 0) ∈ (chunks chunkSize raw).zipIdx := by
    rw [List.mk_mem_zipIdx_iff_getElem?]
    simp [chunks, hsome]
  have hcount := count_le_of_segmentsFit hfit (List.ne_nil_of_mem (List.fst_mem_of_mem_zipIdx hfirst))
  obtain ⟨size, hsize, hfits⟩ := segmentsFit_iff.1 hfit _ hfirst
  rw [serializedChunkLen_longEnvelope idLen resultLen (by omega) hcount hlimit] at hsize
  cases hsize
  dsimp only at hfits
  rw [Base64.length_encode, List.length_take, Nat.min_eq_left hle] at hfits
  have hdigits : ∀ n, 0 < (Nat.toDigits 10 n).length := fun _ => Nat.length_toDigits_pos
  have hid := hdigits 0
  have hcountDigits := hdigits segmentCount
  have hsizeDigits := hdigits raw.length
  omega

theorem minimalChunkFits_longEnvelope {resultLen : Nat} (hraw : raw.length < 10 ^ 4)
    (hfits : idLen + 168 ≤ remoteControlSegmentMaxBytes) :
    MinimalChunkFits jsonSerializer (longEnvelope idLen resultLen) raw := by
  refine ⟨_, serializedChunkLen_longEnvelope idLen resultLen (by omega) (min_le_right ..) (by omega) _, ?_⟩
  have hdigits : ∀ {n}, n < 10 ^ 4 → (Nat.toDigits 10 n).length ≤ 4 :=
    fun h => (Nat.length_toDigits_le_iff (by omega) (by omega)).2 h
  have hidDigits := hdigits (show 0 < 10 ^ 4 by omega)
  have hcountDigits := hdigits (show min (max raw.length 1) remoteControlSegmentCountMax < 10 ^ 4 by omega)
  have hsizeDigits := hdigits hraw
  have hlen : (raw.take 1).length ≤ 1 := List.length_take_le ..
  rw [Base64.length_encode]
  omega

/-- A message of 1100 bytes under an id that leaves room for chunks of 550. -/
theorem fitsAt_longEnvelope : FitsAt jsonSerializer (longEnvelope 152600 1080) (bytesOf (longResult 1080)) 2 := by
  unfold FitsAt
  rw [length_longResult]
  exact segmentsFit_longEnvelope (by rw [length_longResult]; omega)
    (by rw [length_chunks, length_longResult]; decide) (by decide) (by decide)

theorem split_longEnvelope : ∃ envelopes,
    splitServerEnvelopeForTransport jsonSerializer (longEnvelope 152600 1080) = some envelopes ∧ envelopes ≠ [] := by
  refine (split_ne_nil_iff rfl rfl (by rw [length_longResult]; decide)).2 ⟨_, serializedLen_longEnvelope .., Or.inr ?_⟩
  refine ⟨List.ne_nil_of_length_pos (by rw [length_longResult]; omega),
    minimalChunkFits_longEnvelope (by rw [length_longResult]; omega) (by decide), 2, Or.inl ?_, fitsAt_longEnvelope⟩
  rw [length_longResult]
  exact shortens_refl ..

/-- The message of 1100 bytes goes out in chunks that carry it. -/
theorem split_sound_longEnvelope : ∃ envelopes,
    splitServerEnvelopeForTransport jsonSerializer (longEnvelope 152600 1080) = some envelopes ∧
      Carries jsonSerializer (longEnvelope 152600 1080) (bytesOf (longResult 1080)) envelopes := by
  obtain ⟨envelopes, hsplit, hne⟩ := split_longEnvelope
  refine ⟨envelopes, hsplit, ?_⟩
  rcases (split_sound jsonSerializer _).2 envelopes hsplit with ⟨-, hwhole⟩ | hnil | ⟨message, raw, hevent, hraw, hcarries⟩
  · rcases hwhole with hevent | ⟨whole, hlen, hle⟩
    · exact absurd rfl (hevent (longResult 1080))
    · rw [serializedLen_longEnvelope] at hlen
      cases hlen
      exact absurd hle (by decide)
  · exact absurd hnil hne
  · cases hevent
    cases hraw
    exact hcarries

theorem split_nonempty_longEnvelope : ∃ envelopes,
    splitServerEnvelopeForTransport jsonSerializer (longEnvelope 152600 1080) = some envelopes ∧ envelopes ≠ [] := by
  have hlimit : (bytesOf (longResult 1080)).length ≤ remoteControlReassembledMaxBytes := by
    rw [length_longResult]
    decide
  refine (split_nonempty_iff rfl rfl hlimit).2 ?_ ⟨2, le_rfl, by decide, fitsAt_longEnvelope⟩
  exact fun _ => (split_ne_nil_iff rfl rfl hlimit).1 split_longEnvelope

/-- A little longer id leaves room for chunks of 10, but not for those of 29. The loop stops
taking shorter chunks at 29: a 39th chunk makes them no shorter. -/
theorem canSplit_longerEnvelope : CanSplit jsonSerializer (longEnvelope 153412 1080) (bytesOf (longResult 1080)) := by
  refine ⟨110, by omega, by decide, ?_⟩
  unfold FitsAt
  rw [length_longResult]
  exact segmentsFit_longEnvelope (by rw [length_longResult]; omega)
    (by rw [length_chunks, length_longResult]; decide) (by decide) (by decide)

theorem tried_longerEnvelope (h : Tried 1100 n) :
    ¬ FitsAt jsonSerializer (longEnvelope 153412 1080) (bytesOf (longResult 1080)) n := by
  have hlength : (bytesOf (longResult 1080)).length = 1100 := length_longResult 1080
  unfold FitsAt
  rw [hlength]
  rcases h with hshortens | rfl
  · have hfirst : firstSegmentCount 1100 = 2 := by decide
    have hn : n ≤ 38 := by
      by_contra hmore
      exact absurd (hshortens.2 38 (by omega) (by omega)) (by decide)
    have hlow : chunkSizeFor 1100 38 ≤ chunkSizeFor 1100 n :=
      chunkSizeFor_antitone 1100 (by have := hshortens.1; omega) hn
    have hbytes : chunkSizeFor 1100 38 = 29 := by decide
    have hhigh : chunkSizeFor 1100 n ≤ 1100 := chunkSizeFor_le 1100 (by have := hshortens.1; omega)
    apply not_segmentsFit_longEnvelope (by omega) (by omega) (chunkSizeFor_pos ..) (by omega)
    unfold remoteControlSegmentMaxBytes
    omega
  · intro hfit
    have hcount := count_le_of_segmentsFit hfit (List.ne_nil_of_length_pos (by rw [length_chunks, hlength]; decide))
    exact absurd hcount (by decide)

theorem split_longerEnvelope_dropped :
    ¬ (CanSplit jsonSerializer (longEnvelope 153412 1080) (bytesOf (longResult 1080)) →
      ∃ envelopes, splitServerEnvelopeForTransport jsonSerializer (longEnvelope 153412 1080) = some envelopes ∧
        envelopes ≠ []) := by
  intro hkept
  have hlength : (bytesOf (longResult 1080)).length = 1100 := length_longResult 1080
  obtain ⟨whole, hwhole, hcases⟩ :=
    (split_ne_nil_iff rfl rfl (by rw [length_longResult]; decide)).1 (hkept canSplit_longerEnvelope)
  rcases hcases with hle | ⟨-, -, n, htried, hfits⟩
  · rw [serializedLen_longEnvelope] at hwhole
    cases hwhole
    exact absurd hle (by decide)
  · rw [hlength] at htried
    exact tried_longerEnvelope htried hfits

end Codex.RemoteControl
