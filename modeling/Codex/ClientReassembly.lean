/-
A client's message, whatever else arrives while its chunks do. A message that is complete is not remembered: its chunks
observed again are assembled again (websocket.rs keeps the completed numbers for it).

Source: app-server-transport/src/transport/remote_control/segment.rs.
-/
import Codex.ClientSegments
import Mathlib.Data.List.GetD

namespace Codex.RemoteControl

open JsonRpc (JSONRPCMessage)

/-- A message of a client, cut into chunks. -/
structure SentMessage where
  clientId : ClientId
  streamId : StreamId
  seqId : U64
  message : JSONRPCMessage
  chunks : List Bytes

namespace SentMessage

def json (m : SentMessage) : Bytes := m.chunks.flatten

def metadata (m : SentMessage) : ClientSegmentMetadata :=
  { seqId := m.seqId, segmentCount := .ofNat _ m.chunks.length, messageSizeBytes := .ofNat _ m.json.length }

def chunk (m : SentMessage) (i : Nat) : Bytes := m.chunks.getD i []

def envelope (m : SentMessage) (i : Nat) (cursor : Option Text) : ClientEnvelope :=
  { event := .clientMessageChunk (.ofNat _ i) m.metadata.segmentCount m.metadata.messageSizeBytes
      (Base64.encode (m.chunk i)),
    clientId := m.clientId, streamId := some m.streamId, seqId := some m.seqId, cursor }

def delivered (m : SentMessage) (cursor : Option Text) : ClientEnvelope :=
  { event := .clientMessage m.message, clientId := m.clientId, streamId := some m.streamId, seqId := some m.seqId, cursor }

/-- The chunks cut the message's JSON, within the limits; the JSON reads back as the message. -/
structure Valid (m : SentMessage) (fromSlice : Bytes → Option JSONRPCMessage) : Prop where
  reads : fromSlice m.json = some m.message
  size : m.json.length ≤ remoteControlReassembledMaxBytes
  cut : m.chunks ≠ []
  count : m.chunks.length ≤ remoteControlSegmentCountMax
  nonempty : ∀ chunk ∈ m.chunks, chunk ≠ []

/-- A chunk of a message before this one on its stream. -/
structure Stale (m : SentMessage) (e : ClientEnvelope) : Prop where
  chunk : ∃ metadata, ClientSegmentMetadata.fromEnvelope e = some metadata ∧ metadata.seqId < m.seqId
  clientId : e.clientId = m.clientId
  streamId : e.streamId = some m.streamId

/-- `Interleaved fromSlice m n r inputs`: of the chunks of `m`, the first `n` have been observed and the inputs bring the
others, in order, with more in between. -/
inductive Interleaved (fromSlice : Bytes → Option JSONRPCMessage) (m : SentMessage) :
    Nat → ClientSegmentReassembler → List (ClientEnvelope × Instant) → Prop where
  | done {r} : Interleaved fromSlice m m.chunks.length r []
  | chunk {n r cursor now rest} : n < m.chunks.length → (n = 0 → r.assemblies.lookup m.clientId = none) →
      Interleaved fromSlice m (n + 1) (r.observe fromSlice (m.envelope n cursor) now).1 rest →
      Interleaved fromSlice m n r ((m.envelope n cursor, now) :: rest)
  | duplicate {n i r cursor now rest} : i < n → (i = 0 → n < m.chunks.length) →
      Interleaved fromSlice m n (r.observe fromSlice (m.envelope i cursor) now).1 rest →
      Interleaved fromSlice m n r ((m.envelope i cursor, now) :: rest)
  | stale {n r e now rest} : m.Stale e →
      Interleaved fromSlice m n (r.observe fromSlice e now).1 rest → Interleaved fromSlice m n r ((e, now) :: rest)
  | other {n r e now rest} : e.clientId ≠ m.clientId →
      r.assemblies.entries.length < remoteControlSegmentAssemblyMaxCount →
      Interleaved fromSlice m n (r.observe fromSlice e now).1 rest → Interleaved fromSlice m n r ((e, now) :: rest)

def ForwardedBy (m : SentMessage) (outcome : ClientSegmentObservation) : Prop :=
  ∃ e, outcome = .forward e ∧ e.clientId = m.clientId ∧ e.streamId = some m.streamId ∧ e.seqId = some m.seqId

end SentMessage

/-- What a reassembler makes of one envelope after the other. -/
def ClientSegmentReassembler.observations (fromSlice : Bytes → Option JSONRPCMessage) :
    ClientSegmentReassembler → List (ClientEnvelope × Instant) → List ClientSegmentObservation
  | _, [] => []
  | r, (e, now) :: rest => (r.observe fromSlice e now).2 :: observations fromSlice (r.observe fromSlice e now).1 rest

/-- One envelope of the message is forwarded, in full, when its last chunk comes. -/
def SentMessage.Reassembled (fromSlice : Bytes → Option JSONRPCMessage) (m : SentMessage) (r : ClientSegmentReassembler)
    (inputs : List (ClientEnvelope × Instant)) : Prop :=
  ∃ before cursor now after earlier later,
    inputs = before ++ (m.envelope (m.chunks.length - 1) cursor, now) :: after ∧
    (∀ input ∈ before, ∀ cursor, input.1 ≠ m.envelope (m.chunks.length - 1) cursor) ∧
    r.observations fromSlice inputs = earlier ++ .forward (m.delivered cursor) :: later ∧
    earlier.length = before.length ∧ ∀ outcome ∈ earlier ++ later, ¬ m.ForwardedBy outcome

/-! ## A chunk observed -/

variable {fromSlice : Bytes → Option JSONRPCMessage} {m : SentMessage}

theorem val_ofNat_of_lt {n : Nat} (h : n < 2 ^ 64) : (Fin.ofNat (2 ^ 64) n).val = n := Nat.mod_eq_of_lt h

theorem length_le_utf8Len (text : Text) : text.length ≤ utf8Len text := by
  induction text with
  | nil => exact Nat.le_refl _
  | cons c text ih =>
    have hpos := Char.utf8Size_pos c
    simp only [utf8Len, List.length_cons, List.map_cons, List.sum_cons] at ih ⊢
    omega

/-- The estimate leaves room for the chunk. -/
theorem length_le_estimate_utf8Len (bytes : Bytes) :
    bytes.length ≤ Base64.decodedLenEstimate (utf8Len (Base64.encode bytes)) := by
  have hestimate := Base64.length_le_estimate bytes
  have hlen := length_le_utf8Len (Base64.encode bytes)
  unfold Base64.decodedLenEstimate at hestimate ⊢
  omega

variable {i : Nat} {e : ClientEnvelope}

namespace SentMessage

theorem take_succ_flatten {n : Nat} (h : n < m.chunks.length) :
    (m.chunks.take (n + 1)).flatten = (m.chunks.take n).flatten ++ m.chunk n := by
  have hchunk : m.chunk n = m.chunks[n] := List.getD_eq_getElem _ _ h
  rw [hchunk, List.take_add_one, List.getElem?_eq_getElem h, List.flatten_append]
  simp

theorem length_take_flatten_le (n : Nat) : (m.chunks.take n).flatten.length ≤ m.json.length := by
  have hjson : m.json = (m.chunks.take n).flatten ++ (m.chunks.drop n).flatten := by
    rw [← List.flatten_append, List.take_append_drop]
    rfl
  rw [hjson, List.length_append]
  omega

namespace Valid

theorem size_lt (h : m.Valid fromSlice) : m.json.length < 2 ^ 64 := by
  have := h.size
  unfold remoteControlReassembledMaxBytes at this
  omega

theorem count_lt (h : m.Valid fromSlice) : m.chunks.length < 2 ^ 64 := by
  have := h.count
  unfold remoteControlSegmentCountMax at this
  omega

theorem val_size (h : m.Valid fromSlice) : m.metadata.messageSizeBytes.val = m.json.length := val_ofNat_of_lt h.size_lt

theorem val_count (h : m.Valid fromSlice) : m.metadata.segmentCount.val = m.chunks.length := val_ofNat_of_lt h.count_lt

theorem val_segment (h : m.Valid fromSlice) (hi : i < m.chunks.length) : (Fin.ofNat (2 ^ 64) i).val = i :=
  val_ofNat_of_lt (Nat.lt_trans hi h.count_lt)

theorem chunk_ne_nil (h : m.Valid fromSlice) (hi : i < m.chunks.length) : m.chunk i ≠ [] := by
  have hchunk : m.chunk i = m.chunks[i] := List.getD_eq_getElem _ _ hi
  rw [hchunk]
  exact h.nonempty _ (List.getElem_mem hi)

theorem size_pos (h : m.Valid fromSlice) : 0 < m.json.length := by
  have hpos : 0 < m.chunks.length := List.length_pos_of_ne_nil h.cut
  have hfirst := List.length_pos_of_ne_nil (h.chunk_ne_nil hpos)
  have htake := take_succ_flatten hpos
  have hle := length_take_flatten_le (m := m) 1
  rw [htake, List.take_zero, List.flatten_nil, List.nil_append] at hle
  omega

theorem not_invalidChunk (h : m.Valid fromSlice) (hi : i < m.chunks.length) :
    ¬ invalidChunk (.ofNat _ i) m.metadata.segmentCount m.metadata.messageSizeBytes (Base64.encode (m.chunk i)) := by
  have hcount := h.val_count
  have hsize := h.val_size
  have hsegment := h.val_segment hi
  have hcountMax := h.count
  have hsizeMax := h.size
  have hpos := h.size_pos
  rintro (hzero | hmany | hpast | hempty | hlarge | hnil)
  · have := congrArg Fin.val hzero
    simp only [Fin.val_zero] at this
    omega
  · omega
  · have := Fin.le_def.1 hpast
    omega
  · have := congrArg Fin.val hempty
    simp only [Fin.val_zero] at this
    omega
  · omega
  · exact Base64.encode_ne_nil (h.chunk_ne_nil hi) hnil

end Valid

/-- The assembly after the first `n` chunks. -/
structure Ready (m : SentMessage) (n : Nat) (a : ClientSegmentAssembly) : Prop where
  streamId : a.streamId = m.streamId
  metadata : a.metadata = m.metadata
  raw : a.raw = (m.chunks.take n).flatten
  nextSegmentId : a.nextSegmentId = n

def Next (m : SentMessage) (n : Nat) (updated : ClientSegmentAssembly × AssemblyUpdate) : Prop :=
  if n + 1 < m.chunks.length then m.Ready (n + 1) updated.1 ∧ updated.2 = .pending else updated.2 = .complete m.message

theorem Ready.update {n : Nat} {a} (h : m.Ready n a) (hvalid : m.Valid fromSlice)
    (hn : n < m.chunks.length) (now : Instant) :
    m.Next n (a.update fromSlice m.metadata (.ofNat _ n) (Base64.encode (m.chunk n)) now) := by
  obtain ⟨streamId, _, raw, nextSegmentId, lastChunkSeenAt⟩ := a
  obtain ⟨hstream, hmetadata, hraw, hnext⟩ := h
  dsimp only at hstream hmetadata hraw hnext
  subst hmetadata hraw hnext
  have hsegment := hvalid.val_segment hn
  have hsize := hvalid.val_size
  have hchunk := take_succ_flatten hn
  have hlen : ((m.chunks.take nextSegmentId).flatten ++ m.chunk nextSegmentId).length ≤ m.json.length := by
    rw [← hchunk]
    exact length_take_flatten_le _
  have hroom := length_le_estimate_utf8Len (m.chunk nextSegmentId)
  rw [List.length_append] at hlen
  unfold ClientSegmentAssembly.update
  dsimp only
  rw [if_neg (lt_irrefl _), if_neg (not_not.2 rfl), if_neg (by omega), if_neg (by omega)]
  have hend : (m.chunks.take nextSegmentId).flatten.length + (m.chunk nextSegmentId).length ≤
      ClientSegmentAssembly.chunkEnd
        ⟨streamId, m.metadata, (m.chunks.take nextSegmentId).flatten, nextSegmentId, lastChunkSeenAt⟩
        m.metadata.messageSizeBytes (Base64.encode (m.chunk nextSegmentId)) := by
    unfold ClientSegmentAssembly.chunkEnd
    dsimp only
    omega
  rw [decodeSlice_eq_some.2 ⟨Base64.decode_encode _, by omega⟩]
  dsimp only
  rw [take_writeAt_resize (by omega), ← hchunk, hvalid.val_count]
  unfold Next
  split
  · exact ⟨⟨hstream, rfl, rfl, rfl⟩, rfl⟩
  next hlast =>
    have hall : (m.chunks.take (nextSegmentId + 1)).flatten = m.json := by
      rw [List.take_of_length_le (by omega)]
      rfl
    rw [hall, if_neg (by omega), hvalid.reads]

/-! ## The client's assembly -/

def Assembling (m : SentMessage) (n : Nat) (slot : Option ClientSegmentAssembly) : Prop := ∃ a, slot = some a ∧ m.Ready n a

/-- Once the message is out, an assembly of the client is an earlier message's. -/
def Settled (m : SentMessage) (slot : Option ClientSegmentAssembly) : Prop :=
  ∀ a ∈ slot, a.streamId = m.streamId ∧ a.metadata.seqId < m.seqId

variable {n : Nat} {slot : Option ClientSegmentAssembly}

/-- What was observed, or is of an earlier message, is ignored during assembly. -/
theorem Assembling.ignoresChunk (h : m.Assembling n slot) {seqId : U64} {segmentId}
    (hseen : seqId < m.seqId ∨ seqId = m.seqId ∧ segmentId.val < n) :
    ignoresChunk slot m.streamId seqId segmentId = true := by
  obtain ⟨a, rfl, hready⟩ := h
  refine decide_eq_true ⟨hready.streamId, ?_⟩
  rwa [hready.metadata, hready.nextSegmentId]

def StreamFree (m : SentMessage) (slot : Option ClientSegmentAssembly) : Prop := ∀ a ∈ slot, a.streamId ≠ m.streamId

/-- The next chunk finds the assembly of the chunks before it; the first one opens it. -/
theorem ready_opened (hstart : n = 0 → m.StreamFree slot) (hassembling : 0 < n → m.Assembling n slot) (now : Instant)
    {segmentId} (hsegment : segmentId.val = n) :
    m.Ready n (opened slot m.streamId m.metadata now) ∧
      RemoteControl.ignoresChunk slot m.streamId m.seqId segmentId = false := by
  rcases Nat.eq_zero_or_pos n with hzero | hpos
  · have hfree := hstart hzero
    subst hzero
    cases slot with
    | none => exact ⟨⟨rfl, rfl, rfl, rfl⟩, rfl⟩
    | some a =>
      have hne := hfree a rfl
      constructor
      · unfold opened
        dsimp only
        rw [if_pos hne]
        exact ⟨rfl, rfl, rfl, rfl⟩
      · exact decide_eq_false fun h => hne h.1
  · obtain ⟨a, rfl, hready⟩ := hassembling hpos
    constructor
    · rwa [opened_of_streamId hready.streamId]
    · refine decide_eq_false ?_
      rintro ⟨-, hlt | ⟨-, hlt⟩⟩
      · rw [hready.metadata] at hlt
        exact lt_irrefl _ hlt
      · rw [hready.nextSegmentId] at hlt
        omega

theorem observeSlot_envelope (hvalid : m.Valid fromSlice) {i : Nat} (hi : i < m.chunks.length)
    (hignore : RemoteControl.ignoresChunk slot m.streamId m.seqId (.ofNat _ i) = false) (cursor : Option Text) (now : Instant) :
    observeSlot fromSlice slot (m.envelope i cursor) now = afterUpdate (m.envelope i cursor)
      ((opened slot m.streamId m.metadata now).update fromSlice m.metadata (.ofNat _ i) (Base64.encode (m.chunk i)) now) := by
  show (if _ then _ else if _ then _ else _) = _
  rw [if_neg (ne_true_of_eq_false hignore), if_neg (hvalid.not_invalidChunk hi)]
  rfl

/-- **The next chunk joins the ones before it; the last brings the message out.** -/
theorem observeSlot_chunk (hvalid : m.Valid fromSlice) (hn : n < m.chunks.length) (hstart : n = 0 → m.StreamFree slot)
    (hassembling : 0 < n → m.Assembling n slot) (cursor : Option Text) (now : Instant) :
    if n + 1 < m.chunks.length then
      m.Assembling (n + 1) (observeSlot fromSlice slot (m.envelope n cursor) now).1 ∧
        (observeSlot fromSlice slot (m.envelope n cursor) now).2 = .pending
    else observeSlot fromSlice slot (m.envelope n cursor) now = (none, .forward (m.delivered cursor)) := by
  obtain ⟨hready, hignore⟩ := ready_opened hstart hassembling now (hvalid.val_segment hn)
  have hnext := hready.update hvalid hn now
  rw [observeSlot_envelope hvalid hn hignore]
  generalize (opened slot m.streamId m.metadata now).update fromSlice m.metadata (.ofNat _ n) (Base64.encode (m.chunk n)) now =
    updated at hnext ⊢
  obtain ⟨a, result⟩ := updated
  unfold Next at hnext
  split
  next hmore =>
    rw [if_pos hmore] at hnext
    obtain ⟨hready, rfl⟩ := hnext
    exact ⟨⟨a, rfl, hready⟩, rfl⟩
  next hlast =>
    rw [if_neg hlast] at hnext
    subst hnext
    rfl

/-- A chunk that finds an earlier message's assembly is dropped, and so is a later chunk that finds none. -/
theorem observeSlot_again (hvalid : m.Valid fromSlice) (h : m.Settled slot) {i : Nat} (hi : i < m.chunks.length)
    (hpos : slot = none → 0 < i)
    (cursor : Option Text) (now : Instant) : observeSlot fromSlice slot (m.envelope i cursor) now = (none, .dropped) := by
  have hsegment := hvalid.val_segment hi
  have hignore : RemoteControl.ignoresChunk slot m.streamId m.seqId (.ofNat _ i) = false := by
    cases slot with
    | none => rfl
    | some a =>
      have hseq := (h a rfl).2
      refine decide_eq_false ?_
      rintro ⟨-, hlt | ⟨heq, -⟩⟩
      · exact lt_asymm hseq hlt
      · exact lt_irrefl _ (heq ▸ hseq)
  have hdrop : ((opened slot m.streamId m.metadata now).update fromSlice m.metadata (.ofNat _ i)
      (Base64.encode (m.chunk i)) now).2 = .drop := by
    cases slot with
    | none =>
      have hpos := hpos rfl
      unfold opened ClientSegmentAssembly.update
      dsimp only
      rw [if_neg (lt_irrefl _), if_neg (not_not.2 rfl), if_neg (by omega), if_pos (by omega)]
    | some a =>
      obtain ⟨hstream, hseq⟩ := h a rfl
      have hne : a.metadata ≠ m.metadata := by
        intro heq
        rw [heq] at hseq
        exact lt_irrefl _ hseq
      have hnewer : ¬ m.metadata.seqId < a.metadata.seqId := lt_asymm hseq
      rw [opened_of_streamId hstream]
      unfold ClientSegmentAssembly.update
      rw [if_neg hnewer, if_pos hne]
  rw [observeSlot_envelope hvalid hi hignore]
  generalize (opened slot m.streamId m.metadata now).update fromSlice m.metadata (.ofNat _ i) (Base64.encode (m.chunk i)) now =
    updated at hdrop ⊢
  obtain ⟨a, result⟩ := updated
  subst hdrop
  rfl

theorem Stale.seqId (h : m.Stale e) : ∃ seqId, e.seqId = some seqId ∧ seqId < m.seqId := by
  obtain ⟨metadata, hmetadata, hlt⟩ := h.chunk
  unfold ClientSegmentMetadata.fromEnvelope at hmetadata
  split at hmetadata
  · obtain ⟨seqId, hseq, rfl⟩ := Option.map_eq_some_iff.1 hmetadata
    exact ⟨seqId, hseq, hlt⟩
  · exact nomatch hmetadata

/-- A chunk of an earlier message is ignored during assembly. -/
theorem Stale.observeSlot_assembling (h : m.Stale e) (hassembling : m.Assembling n slot) (now : Instant) :
    (observeSlot fromSlice slot e now).1 = slot := by
  obtain ⟨metadata, hmetadata, hlt⟩ := h.chunk
  unfold observeSlot
  split
  next segmentId _ _ _ _ =>
    rw [hmetadata, h.streamId]
    dsimp only
    rw [if_pos (hassembling.ignoresChunk (.inl hlt))]
  next => rfl

/-- A chunk of an earlier message leaves at most an earlier message's assembly. -/
theorem Settled.stale (h : m.Settled slot) (hstale : m.Stale e) (now : Instant) :
    m.Settled (observeSlot fromSlice slot e now).1 := by
  obtain ⟨metadata, hmetadata, hlt⟩ := hstale.chunk
  have hopened : m.Settled (some (opened slot m.streamId metadata now)) := by
    rintro a ha
    obtain rfl := Option.some.inj ha
    unfold opened
    split
    next a =>
      obtain ⟨hstream, hseq⟩ := h a rfl
      rw [if_neg (not_not.2 hstream)]
      exact ⟨hstream, hseq⟩
    next => exact ⟨rfl, hlt⟩
  unfold observeSlot
  split
  next segmentId _ _ messageChunkBase64 _ =>
    rw [hmetadata, hstale.streamId]
    dsimp only
    split
    · exact h
    split
    · exact fun a ha => h a (Option.filter_eq_some_iff.1 ha).1
    have hstream := ClientSegmentAssembly.update_streamId fromSlice (opened slot m.streamId metadata now) metadata segmentId
      messageChunkBase64 now
    have hsame := ClientSegmentAssembly.update_metadata fromSlice (opened slot m.streamId metadata now) metadata segmentId
      messageChunkBase64 now
    generalize (opened slot m.streamId metadata now).update fromSlice metadata segmentId messageChunkBase64 now = updated
      at hstream hsame ⊢
    obtain ⟨a, result⟩ := updated
    have hupdated : m.Settled (some a) := by
      rintro a' ha
      obtain rfl := Option.some.inj ha
      rw [hstream, hsame]
      exact hopened _ rfl
    cases result with
    | pending => exact hupdated
    | ignore => exact hupdated
    | drop => exact nofun
    | complete => exact nofun
  next => exact h

/-! ## The run -/

/-- What is forwarded keeps its envelope's client, stream and number. -/
theorem ForwardedBy.ids {now} (h : m.ForwardedBy (observeSlot fromSlice slot e now).2) :
    e.clientId = m.clientId ∧ e.streamId = some m.streamId ∧ e.seqId = some m.seqId := by
  obtain ⟨e', he, hids⟩ := h
  suffices hsame : e'.clientId = e.clientId ∧ e'.streamId = e.streamId ∧ e'.seqId = e.seqId by
    rwa [hsame.1, hsame.2.1, hsame.2.2] at hids
  unfold observeSlot at he
  split at he
  · split at he
    · cases he
    · cases he
    · split at he
      · cases he
      split at he
      · cases he
      unfold afterUpdate at he
      split at he
      · cases he
      · cases he
      · cases he
      · cases he
        exact ⟨rfl, rfl, rfl⟩
  · cases he
    exact ⟨rfl, rfl, rfl⟩

theorem Stale.not_forwardedBy (h : m.Stale e) (slot : Option ClientSegmentAssembly) (now : Instant) :
    ¬ m.ForwardedBy (observeSlot fromSlice slot e now).2 := by
  intro hforwarded
  obtain ⟨seqId, hseq, hlt⟩ := h.seqId
  exact absurd (Option.some.inj (hforwarded.ids.2.2.symm.trans hseq)) (ne_of_gt hlt)

variable {r : ClientSegmentReassembler} {inputs : List (ClientEnvelope × Instant)}

theorem not_forwardedBy_dropped : ¬ m.ForwardedBy .dropped := fun ⟨_, h, _⟩ => nomatch h

theorem not_forwardedBy_pending : ¬ m.ForwardedBy .pending := fun ⟨_, h, _⟩ => nomatch h

theorem settled_none : m.Settled none := fun _ ha => nomatch ha

theorem observe_own (fromSlice : Bytes → Option JSONRPCMessage) (r : ClientSegmentReassembler)
    (h : e.clientId = m.clientId) (now : Instant) :
    (r.observe fromSlice e now).1.assemblies.lookup m.clientId =
        (observeSlot fromSlice (r.assemblies.lookup m.clientId) e now).1 ∧
      (r.observe fromSlice e now).2 = (observeSlot fromSlice (r.assemblies.lookup m.clientId) e now).2 := by
  rw [← h]
  exact ⟨r.lookup_observe fromSlice e now, r.observe_snd fromSlice e now⟩

/-- The envelope of another client changes neither the assembly nor what is forwarded for the message. -/
theorem observe_other (fromSlice : Bytes → Option JSONRPCMessage) (hclient : e.clientId ≠ m.clientId)
    (hroom : r.assemblies.entries.length < remoteControlSegmentAssemblyMaxCount) (now : Instant) :
    (r.observe fromSlice e now).1.assemblies.lookup m.clientId = r.assemblies.lookup m.clientId ∧
      ¬ m.ForwardedBy (r.observe fromSlice e now).2 := by
  constructor
  · rcases ClientSegmentReassembler.lookup_observe_of_ne (r := r) fromSlice (Ne.symm hclient) now with hsame | ⟨hfull, -⟩
    · exact hsame
    · omega
  · intro hforwarded
    rw [r.observe_snd] at hforwarded
    exact hclient hforwarded.ids.1

/-- Once the message is out it is not forwarded again. -/
theorem Interleaved.quiet (h : m.Interleaved fromSlice n r inputs) (hvalid : m.Valid fromSlice) (hall : n = m.chunks.length)
    (hsettled : m.Settled (r.assemblies.lookup m.clientId)) :
    ∀ outcome ∈ r.observations fromSlice inputs, ¬ m.ForwardedBy outcome := by
  induction h with
  | done => exact fun _ h => nomatch h
  | chunk hn => exact absurd hall (Nat.ne_of_lt hn)
  | @duplicate n i r cursor now rest hi hfirst _ ih =>
    have hagain := observeSlot_again hvalid hsettled (hall ▸ hi) (fun _ => by omega) cursor now
    obtain ⟨hslot, hout⟩ := observe_own fromSlice r (rfl : (m.envelope i cursor).clientId = m.clientId) now
    rw [hagain] at hslot hout
    rintro outcome (_ | ⟨_, hmem⟩)
    · rw [hout]
      exact not_forwardedBy_dropped
    · exact ih hall (by rw [hslot]; exact settled_none) outcome hmem
  | @stale n r e now rest hstale _ ih =>
    obtain ⟨hslot, hout⟩ := observe_own fromSlice r hstale.clientId now
    rintro outcome (_ | ⟨_, hmem⟩)
    · rw [hout]
      exact hstale.not_forwardedBy _ now
    · exact ih hall (by rw [hslot]; exact hsettled.stale hstale now) outcome hmem
  | @other n r e now rest hclient hroom _ ih =>
    obtain ⟨hslot, hnot⟩ := observe_other fromSlice hclient hroom now
    rintro outcome (_ | ⟨_, hmem⟩)
    · exact hnot
    · exact ih hall (by rwa [hslot]) outcome hmem

/-- An input before the last chunk that forwards nothing of the message can come first. -/
theorem Reassembled.cons {now : Instant} (h : m.Reassembled fromSlice (r.observe fromSlice e now).1 inputs)
    (hlast : ∀ cursor, e ≠ m.envelope (m.chunks.length - 1) cursor) (hout : ¬ m.ForwardedBy (r.observe fromSlice e now).2) :
    m.Reassembled fromSlice r ((e, now) :: inputs) := by
  obtain ⟨before, cursor, time, after, earlier, later, rfl, hbefore, houtcomes, hlen, hnot⟩ := h
  refine ⟨(e, now) :: before, cursor, time, after, (r.observe fromSlice e now).2 :: earlier, later, rfl, ?_, ?_, ?_, ?_⟩
  · rintro input (_ | ⟨_, hmem⟩)
    · exact hlast
    · exact hbefore input hmem
  · rw [List.cons_append, ← houtcomes]
    rfl
  · rw [List.length_cons, List.length_cons, hlen]
  · rintro outcome (_ | ⟨_, hmem⟩)
    · exact hout
    · exact hnot outcome hmem

/-- The last chunk brings the message out; nothing of it comes after. -/
theorem Reassembled.last {cursor now}
    (hout : (r.observe fromSlice (m.envelope (m.chunks.length - 1) cursor) now).2 = .forward (m.delivered cursor))
    (hquiet : ∀ outcome ∈ (r.observe fromSlice (m.envelope (m.chunks.length - 1) cursor) now).1.observations fromSlice inputs,
      ¬ m.ForwardedBy outcome) :
    m.Reassembled fromSlice r ((m.envelope (m.chunks.length - 1) cursor, now) :: inputs) := by
  refine ⟨[], cursor, now, inputs, [], _, rfl, (fun _ h => nomatch h), ?_, rfl, hquiet⟩
  rw [← hout]
  rfl

theorem Valid.envelope_ne (hvalid : m.Valid fromSlice) {i j : Nat} (hi : i < m.chunks.length) (hj : j < m.chunks.length)
    (hne : i ≠ j) (cursor cursor' : Option Text) : m.envelope i cursor ≠ m.envelope j cursor' := by
  intro h
  injection h with hevent
  injection hevent with hsegment
  have hval := congrArg Fin.val hsegment
  rw [hvalid.val_segment hi, hvalid.val_segment hj] at hval
  exact hne hval

/-- While chunks are missing, the rest of the inputs brings the message out. -/
theorem Interleaved.reassembled (h : m.Interleaved fromSlice n r inputs) (hvalid : m.Valid fromSlice)
    (hn : n < m.chunks.length) (hassembling : 0 < n → m.Assembling n (r.assemblies.lookup m.clientId)) :
    m.Reassembled fromSlice r inputs := by
  induction h with
  | done => exact absurd hn (lt_irrefl _)
  | @chunk n r cursor now rest hlt hstart hrest ih =>
    have hfree : n = 0 → m.StreamFree (r.assemblies.lookup m.clientId) := by
      intro hzero
      rw [hstart hzero]
      exact nofun
    have hchunk := observeSlot_chunk hvalid hlt hfree hassembling cursor now
    obtain ⟨hslot, hout⟩ := observe_own fromSlice r (rfl : (m.envelope n cursor).clientId = m.clientId) now
    split at hchunk
    next hmore =>
      refine (ih hmore fun _ => by rw [hslot]; exact hchunk.1).cons ?_ ?_
      · exact hvalid.envelope_ne hlt (by omega) (by omega) cursor
      · rw [hout, hchunk.2]
        exact not_forwardedBy_pending
    next hlast =>
      rw [hchunk] at hslot hout
      obtain rfl : n = m.chunks.length - 1 := by omega
      refine Reassembled.last hout (hrest.quiet hvalid (by omega) ?_)
      rw [hslot]
      exact settled_none
  | @duplicate n i r cursor now rest hi _ _ ih =>
    obtain ⟨hslot, hout⟩ := observe_own fromSlice r (rfl : (m.envelope i cursor).clientId = m.clientId) now
    have hready := hassembling (by omega)
    have hignored : RemoteControl.ignoresChunk (r.assemblies.lookup m.clientId) m.streamId m.seqId (.ofNat _ i) = true :=
      hready.ignoresChunk (.inr ⟨rfl, by rwa [hvalid.val_segment (Nat.lt_trans hi hn)]⟩)
    have hsame : observeSlot fromSlice (r.assemblies.lookup m.clientId) (m.envelope i cursor) now =
      (r.assemblies.lookup m.clientId, .dropped) := if_pos hignored
    rw [hsame] at hslot hout
    refine (ih hn fun _ => by rwa [hslot]).cons ?_ ?_
    · exact hvalid.envelope_ne (by omega) (by omega) (by omega) cursor
    · rw [hout]
      exact not_forwardedBy_dropped
  | @stale n r e now rest hstale _ ih =>
    obtain ⟨hslot, hout⟩ := observe_own fromSlice r hstale.clientId now
    refine (ih hn fun hpos => ?_).cons ?_ ?_
    · rw [hslot, hstale.observeSlot_assembling (hassembling hpos) now]
      exact hassembling hpos
    · rintro cursor rfl
      obtain ⟨seqId, hseq, hlt⟩ := hstale.seqId
      exact absurd (Option.some.inj hseq) (ne_of_gt hlt)
    · rw [hout]
      exact hstale.not_forwardedBy _ now
  | @other n r e now rest hclient hroom _ ih =>
    obtain ⟨hslot, hnot⟩ := observe_other fromSlice hclient hroom now
    refine (ih hn fun hpos => by rw [hslot]; exact hassembling hpos).cons ?_ hnot
    rintro cursor rfl
    exact hclient rfl

end SentMessage

/-- **A message comes out of a reassembler once, when its last chunk comes, whatever else is observed.** -/
theorem client_message_reassembled (fromSlice : Bytes → Option JSONRPCMessage) (history : List ReassemblerAction) :
    (Runs.run (ClientSegmentReassembler.step fromSlice) {} history).Bounded ∧
    ∀ (m : SentMessage) (inputs : List (ClientEnvelope × Instant)), m.Valid fromSlice →
      m.Interleaved fromSlice 0 (Runs.run (ClientSegmentReassembler.step fromSlice) {} history) inputs →
      m.Reassembled fromSlice (Runs.run (ClientSegmentReassembler.step fromSlice) {} history) inputs := by
  refine ⟨ClientSegmentReassembler.bounded_run history, fun m inputs hvalid hinputs => ?_⟩
  exact hinputs.reassembled hvalid (List.length_pos_of_ne_nil hvalid.cut) fun hpos => absurd hpos (lt_irrefl _)

def initialized : JSONRPCMessage := .notification { method := "initialized".toList, params := none }

def initializedJson : Bytes := "\x7b\"method\":\"initialized\"\x7d".toList.map fun c => .ofNat c.toNat

def readInitialized (bytes : Bytes) : Option JSONRPCMessage := if bytes = initializedJson then some initialized else none

/-- The message of the tests, in two chunks. -/
def sampleMessage : SentMessage where
  clientId := "client-1".toList
  streamId := "stream-1".toList
  seqId := 8
  message := initialized
  chunks := [initializedJson.take 12, initializedJson.drop 12]

/-- The first chunk of the message before it. -/
def sampleStale : ClientEnvelope := { sampleMessage with seqId := 7 : SentMessage }.envelope 0 none

def otherClient : ClientEnvelope := { sampleMessage with clientId := "client-2".toList : SentMessage }.envelope 0 none

theorem valid_sampleMessage : sampleMessage.Valid readInitialized where
  reads := rfl
  size := by decide
  cut := by decide
  count := by decide
  nonempty := by decide

theorem stale_sampleStale : sampleMessage.Stale sampleStale := ⟨⟨_, rfl, by decide⟩, rfl, rfl⟩

/-- With a duplicate, a stale chunk and another client's chunk in between. -/
theorem client_message_reassembled_sample : sampleMessage.Reassembled readInitialized {}
    [(otherClient, 1), (sampleMessage.envelope 0 none, 2), (sampleStale, 3), (sampleMessage.envelope 0 none, 4),
      (sampleMessage.envelope 1 none, 5), (sampleMessage.envelope 1 none, 6)] := by
  refine (client_message_reassembled readInitialized []).2 sampleMessage _ valid_sampleMessage ?_
  refine .other (by decide) (by decide) (.chunk (by decide) (fun _ => rfl) (.stale stale_sampleStale ?_))
  exact .duplicate (by decide) (by decide) (.chunk (by decide) nofun (.duplicate (by decide) nofun .done))

/-- A chunk of the message before it that comes first costs the message, and
repeated from its first chunk on the message comes out again. -/
theorem stale_first_or_repeated : sampleMessage.Valid readInitialized ∧ sampleMessage.Stale sampleStale ∧
    ClientSegmentReassembler.observations readInitialized {}
      [(sampleStale, 1), (sampleMessage.envelope 0 none, 2), (sampleMessage.envelope 1 none, 3)] =
        [.pending, .dropped, .dropped] ∧
    ClientSegmentReassembler.observations readInitialized {}
      [(sampleMessage.envelope 0 none, 1), (sampleMessage.envelope 1 none, 2), (sampleMessage.envelope 0 none, 3),
        (sampleMessage.envelope 1 none, 4)] =
        [.pending, .forward (sampleMessage.delivered none), .pending, .forward (sampleMessage.delivered none)] :=
  ⟨valid_sampleMessage, stale_sampleStale, rfl, rfl⟩

end Codex.RemoteControl
