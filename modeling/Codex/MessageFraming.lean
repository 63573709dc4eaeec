/-
JSON-RPC messages over the encrypted record stream
(`exec-server/src/noise_relay/message_framing.rs`): each message is its JSON
text behind a four-byte length, and the records are cuts of that byte stream.

The bytes come back as they were, but not every message does: `serde` reads an
explicit `null` member back as an absent one, and the reader refuses a value
with more than `maxJsonrpcValueNodes` values in it.
-/
import Codex.JsonRpc
import Codex.OrderedFrames

namespace Codex.NoiseRelay

open JsonRpc

def lengthPrefixBytes : Nat := 4
def maxNoiseJsonrpcMessageLen : Nat := 64 * 1024 * 1024
def noiseRecordPlaintextLen : Nat := 60 * 1024

def messageTooLong : ExecServerError := .protocol "Noise relay JSON-RPC message exceeds maximum length"
def recordTooLong : ExecServerError := .protocol "Noise relay plaintext record exceeds maximum length"
def invalidLength : ExecServerError := .protocol "Noise relay JSON-RPC message has invalid length"
def bufferTooLong : ExecServerError := .protocol "Noise relay JSON-RPC reassembly buffer exceeds maximum length"

/-- `u32::to_be_bytes` -/
def toBeBytes (n : Nat) : Bytes :=
  [UInt8.ofNat (n / 2 ^ 24), UInt8.ofNat (n / 2 ^ 16), UInt8.ofNat (n / 2 ^ 8), UInt8.ofNat n]

/-- `u32::from_be_bytes` -/
def fromBeBytes (bytes : Bytes) : Nat := bytes.foldl (fun n b => n * 2 ^ 8 + b.toNat) 0

def frameJsonrpcMessage (text : JsonText) (message : JSONRPCMessage) : Except ExecServerError Bytes :=
  let body := text.write message.toValue
  if maxNoiseJsonrpcMessageLen < body.length then .error messageTooLong
  else .ok (toBeBytes body.length ++ body)

structure JsonRpcMessageDecoder where
  buffered : Bytes := []

/-- The loop of `push`: the messages of the complete frames, and what is left in the buffer. -/
def decodeFrames (text : JsonText) (buffered : Bytes) (messages : List JSONRPCMessage) :
    Except ExecServerError (List JSONRPCMessage) × Bytes :=
  if buffered.length < lengthPrefixBytes then (.ok messages, buffered)
  else
    let messageLen := fromBeBytes (buffered.take lengthPrefixBytes)
    if messageLen = 0 ∨ maxNoiseJsonrpcMessageLen < messageLen then (.error invalidLength, buffered)
    else if buffered.length < lengthPrefixBytes + messageLen then (.ok messages, buffered)
    else
      match JSONRPCMessage.fromSlice text ((buffered.take (lengthPrefixBytes + messageLen)).drop lengthPrefixBytes) with
      | none => (.error .json, buffered)
      | some message =>
        decodeFrames text (buffered.drop (lengthPrefixBytes + messageLen)) (messages ++ [message])
  termination_by buffered.length
  decreasing_by
    rw [List.length_drop]
    unfold lengthPrefixBytes at *
    omega

namespace JsonRpcMessageDecoder

def push (text : JsonText) (d : JsonRpcMessageDecoder) (record : Bytes) :
    Except ExecServerError (List JSONRPCMessage) × JsonRpcMessageDecoder :=
  if noiseRecordPlaintextLen < record.length then (.error recordTooLong, d)
  else
    let (result, buffered) := decodeFrames text (d.buffered ++ record) []
    match result with
    | .error e => (.error e, { buffered })
    | .ok messages =>
      if lengthPrefixBytes + maxNoiseJsonrpcMessageLen < buffered.length then (.error bufferTooLong, { buffered })
      else (.ok messages, { buffered })

/-- The records fed in order up to the first error: the messages returned, and the decoder left behind. -/
def pushAll (text : JsonText) (d : JsonRpcMessageDecoder) :
    List Bytes → Except ExecServerError (List JSONRPCMessage) × JsonRpcMessageDecoder
  | [] => (.ok [], d)
  | record :: records =>
    match d.push text record with
    | (.error e, d) => (.error e, d)
    | (.ok messages, d) =>
      match pushAll text d records with
      | (.error e, d) => (.error e, d)
      | (.ok more, d) => (.ok (messages ++ more), d)

end JsonRpcMessageDecoder

/-! ## One frame -/

/-- The reader gives the message back: `serde_json` reads its text back, and
the message is one the reader does not refuse or change. -/
structure Readable (text : JsonText) (message : JSONRPCMessage) : Prop where
  readsBack : text.ReadsBack message.toValue
  plain : message.toValue.Plain
  within : message.toValue.nodes ≤ maxJsonrpcValueNodes
  noExplicitNull : message.NoExplicitNull

theorem Readable.fromSlice {text message} (h : Readable text message) :
    JSONRPCMessage.fromSlice text (text.write message.toValue) = some message := by
  unfold JSONRPCMessage.fromSlice
  rw [boundedValue_plain h.readsBack h.plain h.within]
  exact ofValue_toValue message h.noExplicitNull

theorem Readable.write_ne_nil {text message} (h : Readable text message)
    (hempty : text.read [] = none) : text.write message.toValue ≠ [] := by
  intro hnil
  have hback := h.readsBack
  unfold JsonText.ReadsBack at hback
  rw [hnil, hempty] at hback
  cases hback

theorem fromBeBytes_toBeBytes {n : Nat} (h : n < 2 ^ 32) : fromBeBytes (toBeBytes n) = n := by
  have hbyte : ∀ k : Nat, (UInt8.ofNat k).toNat = k % 256 := fun k => UInt8.toNat_ofNat'
  unfold fromBeBytes toBeBytes
  simp only [List.foldl_cons, List.foldl_nil, hbyte]
  omega

theorem length_toBeBytes (n : Nat) : (toBeBytes n).length = lengthPrefixBytes := rfl

theorem frameJsonrpcMessage_ok {text message frame} (h : frameJsonrpcMessage text message = .ok frame) :
    frame = toBeBytes (text.write message.toValue).length ++ text.write message.toValue ∧
      (text.write message.toValue).length ≤ maxNoiseJsonrpcMessageLen := by
  simp only [frameJsonrpcMessage] at h
  split at h
  · cases h
  · next hle =>
    cases h
    exact ⟨rfl, Nat.le_of_not_lt hle⟩

variable {buffered rest : Bytes} {messages : List JSONRPCMessage} {frames : List Bytes}

section Frame
variable {text : JsonText} {message : JSONRPCMessage} {frame : Bytes}

/-- A complete frame is taken off the buffer and what its text is read as returned. -/
theorem decodeFrames_frame {read} (hne : text.write message.toValue ≠ [])
    (hslice : JSONRPCMessage.fromSlice text (text.write message.toValue) = some read)
    (hframe : frameJsonrpcMessage text message = .ok frame) (buffered : Bytes) (messages : List JSONRPCMessage) :
    decodeFrames text (frame ++ buffered) messages = decodeFrames text buffered (messages ++ [read]) := by
  obtain ⟨hframe, hle⟩ := frameJsonrpcMessage_ok hframe
  have hne := List.length_pos_of_ne_nil hne
  generalize text.write message.toValue = body at hframe hle hne hslice
  have hmax : maxNoiseJsonrpcMessageLen < 2 ^ 32 := by decide
  have hlength : (frame ++ buffered).take lengthPrefixBytes = toBeBytes body.length := by
    rw [hframe, List.append_assoc]
    exact List.take_left' (length_toBeBytes _)
  have hlen : frame.length = lengthPrefixBytes + body.length := by
    rw [hframe, List.length_append, length_toBeBytes]
  have hbody : ((frame ++ buffered).take (lengthPrefixBytes + body.length)).drop lengthPrefixBytes = body := by
    rw [List.take_left' hlen, hframe]
    exact List.drop_left' (length_toBeBytes _)
  have hrest : (frame ++ buffered).drop (lengthPrefixBytes + body.length) = buffered := List.drop_left' hlen
  have hshort : ¬ (frame ++ buffered).length < lengthPrefixBytes := by
    rw [List.length_append]
    omega
  have hwhole : ¬ (frame ++ buffered).length < lengthPrefixBytes + body.length := by
    rw [List.length_append]
    omega
  conv_lhs => unfold decodeFrames
  simp only [hlength, fromBeBytes_toBeBytes (Nat.lt_of_le_of_lt hle hmax), hbody, hslice, hrest, if_neg hshort,
    if_neg hwhole, if_neg (not_or.2 ⟨Nat.ne_of_gt hne, Nat.not_lt.2 hle⟩)]

theorem decodeFrames_partial (hempty : text.read [] = none) (hread : Readable text message)
    (hframe : frameJsonrpcMessage text message = .ok frame)
    (hbuf : buffered ++ rest = frame) (hrest : rest ≠ []) (messages : List JSONRPCMessage) :
    decodeFrames text buffered messages = (.ok messages, buffered) := by
  obtain ⟨hframe, hle⟩ := frameJsonrpcMessage_ok hframe
  have hne := List.length_pos_of_ne_nil (hread.write_ne_nil hempty)
  generalize text.write message.toValue = body at hframe hle hne
  have hmax : maxNoiseJsonrpcMessageLen < 2 ^ 32 := by decide
  have hlen : buffered.length + rest.length = lengthPrefixBytes + body.length := by
    rw [← List.length_append, hbuf, hframe, List.length_append, length_toBeBytes]
  have hpos := List.length_pos_of_ne_nil hrest
  unfold decodeFrames
  split
  · rfl
  · next hlong =>
    have hlength : buffered.take lengthPrefixBytes = toBeBytes body.length := by
      rw [← @List.take_append_of_le_length _ _ rest _ (Nat.le_of_not_lt hlong), hbuf, hframe]
      exact List.take_left' (length_toBeBytes _)
    simp only [hlength, fromBeBytes_toBeBytes (Nat.lt_of_le_of_lt hle hmax)]
    rw [if_neg (not_or.2 ⟨Nat.ne_of_gt hne, Nat.not_lt.2 hle⟩), if_pos (by omega)]

end Frame

/-! ## The stream -/

section Stream
variable {text : JsonText}

def Frames (text : JsonText) (messages : List JSONRPCMessage) (frames : List Bytes) : Prop :=
  List.Forall₂ (fun message frame => frameJsonrpcMessage text message = .ok frame) messages frames

theorem length_frame_le {message frame} (h : frameJsonrpcMessage text message = .ok frame) :
    lengthPrefixBytes ≤ frame.length ∧ frame.length ≤ lengthPrefixBytes + maxNoiseJsonrpcMessageLen := by
  obtain ⟨hframe, hle⟩ := frameJsonrpcMessage_ok h
  rw [hframe, List.length_append, length_toBeBytes]
  omega

/-- A buffer in step with the stream: what it holds is short of the next frame. -/
def InStep (buffered : Bytes) (frames : List Bytes) : Prop := ∀ frame ∈ frames.head?, buffered.length < frame.length

/-- **The decoder keeps in step with the stream**: of the bytes it holds and
those still to come, it returns the messages of the complete frames. -/
theorem decodeFrames_spec (hempty : text.read [] = none)
    (hframes : Frames text messages frames) (hread : ∀ message ∈ messages, Readable text message)
    (hbuf : buffered ++ rest = frames.flatten) (out : List JSONRPCMessage) :
    ∃ done left framesLeft left', messages = done ++ left ∧ Frames text left framesLeft ∧
      decodeFrames text buffered out = (.ok (out ++ done), left') ∧ left' ++ rest = framesLeft.flatten ∧
      InStep left' framesLeft := by
  induction hframes generalizing buffered out with
  | nil =>
    obtain ⟨rfl, rfl⟩ := List.append_eq_nil_iff.1 hbuf
    refine ⟨[], [], [], [], rfl, .nil, ?_, rfl, fun frame h => by cases h⟩
    unfold decodeFrames
    rw [if_pos (by decide), List.append_nil]
  | @cons message frame messages frames hframe htail ih =>
    by_cases hcomplete : frame.length ≤ buffered.length
    · obtain ⟨buffered, rfl⟩ : ∃ b, buffered = frame ++ b := by
        obtain ⟨b, hb, -⟩ | ⟨b, hb, -⟩ := List.append_eq_append_iff.1 hbuf
        · have hlen := congrArg List.length hb
          rw [List.length_append] at hlen
          have hnil : b = [] := List.length_eq_zero_iff.1 (by omega)
          exact ⟨[], by rw [hb, hnil]; simp⟩
        · exact ⟨b, hb⟩
      rw [List.flatten_cons, List.append_assoc, List.append_cancel_left_eq] at hbuf
      obtain ⟨done, left, framesLeft, left', hmsgs, hleft, hdec, hbytes, hstep⟩ :=
        ih (fun m hm => hread m (List.mem_cons_of_mem _ hm)) hbuf (out ++ [message])
      refine ⟨message :: done, left, framesLeft, left', by rw [hmsgs]; rfl, hleft, ?_, hbytes, hstep⟩
      have hmessage := hread message (List.mem_cons_self ..)
      rw [decodeFrames_frame (hmessage.write_ne_nil hempty) hmessage.fromSlice hframe, hdec, List.append_assoc]
      rfl
    · refine ⟨[], message :: messages, frame :: frames, buffered, rfl, .cons hframe htail, ?_, hbuf, ?_⟩
      · obtain ⟨b, hb, -⟩ | ⟨b, hb, -⟩ := List.append_eq_append_iff.1 (hbuf.trans List.flatten_cons)
        · have hne : b ≠ [] := by
            rintro rfl
            rw [List.append_nil] at hb
            exact hcomplete (by rw [hb])
          rw [List.append_nil]
          exact decodeFrames_partial hempty (hread message (List.mem_cons_self ..)) hframe hb.symm hne out
        · rw [hb, List.length_append] at hcomplete
          omega
      · intro f hf
        cases hf
        omega

theorem InStep.length_le
    (hframes : Frames text messages frames) (hbuf : buffered ++ rest = frames.flatten) (h : InStep buffered frames) :
    buffered.length ≤ lengthPrefixBytes + maxNoiseJsonrpcMessageLen := by
  cases hframes with
  | nil =>
    obtain ⟨rfl, -⟩ := List.append_eq_nil_iff.1 hbuf
    exact Nat.zero_le _
  | cons hframe _ =>
    have hlt := h _ rfl
    have hle := (length_frame_le hframe).2
    omega

namespace JsonRpcMessageDecoder

theorem push_spec (hempty : text.read [] = none)
    (hframes : Frames text messages frames) (hread : ∀ message ∈ messages, Readable text message)
    {d : JsonRpcMessageDecoder} {record : Bytes} (hlen : record.length ≤ noiseRecordPlaintextLen)
    (hbuf : d.buffered ++ (record ++ rest) = frames.flatten) :
    ∃ done left framesLeft d', messages = done ++ left ∧ Frames text left framesLeft ∧
      d.push text record = (.ok done, d') ∧ d'.buffered ++ rest = framesLeft.flatten ∧
      InStep d'.buffered framesLeft := by
  rw [← List.append_assoc] at hbuf
  obtain ⟨done, left, framesLeft, left', hmsgs, hleft, hdec, hbytes, hstep⟩ :=
    decodeFrames_spec hempty hframes hread hbuf []
  have hle := InStep.length_le hleft hbytes hstep
  refine ⟨done, left, framesLeft, { buffered := left' }, hmsgs, hleft, ?_, hbytes, hstep⟩
  unfold push
  rw [if_neg (Nat.not_lt.2 hlen), hdec]
  simp only [List.nil_append, if_neg (Nat.not_lt.2 hle)]

/-- The records of a part of the stream. -/
theorem pushAll_spec (hempty : text.read [] = none) (records : List Bytes)
    (hlen : ∀ record ∈ records, record.length ≤ noiseRecordPlaintextLen)
    (hframes : Frames text messages frames)
    (hread : ∀ message ∈ messages, Readable text message) {d : JsonRpcMessageDecoder}
    (hbuf : d.buffered ++ (records.flatten ++ rest) = frames.flatten) (hstep : InStep d.buffered frames) :
    ∃ done left framesLeft d', messages = done ++ left ∧ Frames text left framesLeft ∧
      pushAll text d records = (.ok done, d') ∧ d'.buffered ++ rest = framesLeft.flatten ∧
      InStep d'.buffered framesLeft := by
  induction records generalizing messages frames d with
  | nil => exact ⟨[], messages, frames, d, rfl, hframes, rfl, hbuf, hstep⟩
  | cons record records ih =>
    rw [List.flatten_cons, List.append_assoc] at hbuf
    obtain ⟨done, left, framesLeft, d', rfl, hleft, hpush, hbytes, hstep'⟩ :=
      push_spec hempty hframes hread (hlen record (List.mem_cons_self ..)) hbuf
    obtain ⟨more, left, framesLeft, d'', rfl, hleft, hpushes, hbytes, hstep''⟩ :=
      ih (fun r hr => hlen r (List.mem_cons_of_mem _ hr)) hleft (fun m hm => hread m (List.mem_append_right _ hm))
        hbytes hstep'
    refine ⟨done ++ more, left, framesLeft, d'', by rw [List.append_assoc], hleft, ?_, hbytes, hstep''⟩
    simp only [pushAll, hpush, hpushes]

/-- **Framed messages round-trip**, however their byte stream is cut into
records; the buffer never holds more than a maximal frame and a record. -/
theorem pushAll_frames (hempty : text.read [] = none) {messages : List JSONRPCMessage} {frames records : List Bytes}
    (hframes : Frames text messages frames) (hread : ∀ message ∈ messages, Readable text message)
    (hcut : records.flatten = frames.flatten)
    (hlen : ∀ record ∈ records, record ≠ [] ∧ record.length ≤ noiseRecordPlaintextLen) :
    pushAll text {} records = (.ok messages, {}) ∧
      ∀ fed record more, records = fed ++ record :: more →
        ((pushAll text {} fed).2.buffered ++ record).length ≤
          lengthPrefixBytes + maxNoiseJsonrpcMessageLen + noiseRecordPlaintextLen := by
  have hstart : InStep ({} : JsonRpcMessageDecoder).buffered frames := by
    intro frame hmem
    cases hframes with
    | nil => cases hmem
    | cons hframe _ =>
      cases hmem
      have hle := (length_frame_le hframe).1
      exact Nat.lt_of_lt_of_le (by decide) hle
  refine ⟨?_, fun fed record more hsplit => ?_⟩
  · have hbuf : ({} : JsonRpcMessageDecoder).buffered ++ (records.flatten ++ []) = frames.flatten := by
      rw [List.append_nil, hcut]
      rfl
    obtain ⟨done, left, framesLeft, d', rfl, hleft, hpush, hbytes, hstep⟩ :=
      pushAll_spec hempty records (fun r hr => (hlen r hr).2) hframes hread hbuf hstart
    rw [List.append_nil] at hbytes
    -- Nothing is to come, so a next frame would have to be in the buffer whole.
    cases hleft with
    | nil =>
      rw [hpush, List.append_nil]
      obtain ⟨b⟩ := d'
      rw [show b = [] from hbytes]
    | cons hframe htail =>
      have hlt := hstep _ rfl
      rw [hbytes, List.flatten_cons, List.length_append] at hlt
      omega
  · subst hsplit
    have hbuf : ({} : JsonRpcMessageDecoder).buffered ++ (fed.flatten ++ (record :: more).flatten) = frames.flatten := by
      rw [← hcut, List.flatten_append]
      rfl
    obtain ⟨done, left, framesLeft, d', -, hleft, hpush, hbytes, hstep⟩ :=
      pushAll_spec hempty fed (fun r hr => (hlen r (List.mem_append_left _ hr)).2) hframes hread hbuf hstart
    have hle := InStep.length_le hleft hbytes hstep
    have hrecord := (hlen record (by simp)).2
    rw [hpush, List.length_append]
    change d'.buffered.length + record.length ≤ _
    omega

end JsonRpcMessageDecoder

end Stream

/-! ## Messages that come back, and one that does not -/

def asciiBytes (text : Text) : Bytes := text.map fun c => UInt8.ofNat c.toNat

def pingMessage : JSONRPCMessage := .notification { method := "ping".toList, params := none }
def doneMessage : JSONRPCMessage := .notification { method := "done".toList, params := none }

/-- A notification whose parameters are an explicit `null`. -/
def nullMessage : JSONRPCMessage := .notification { method := "done".toList, params := some .null }

/-- The JSON texts of the three notifications. -/
def sampleWrite : Json → Bytes
  | .object [(key, .string s)] => asciiBytes ("\x7b\"".toList ++ key ++ "\":\"".toList ++ s ++ "\"\x7d".toList)
  | .object [(key, .string s), (key', .null)] =>
    asciiBytes ("\x7b\"".toList ++ key ++ "\":\"".toList ++ s ++ "\",\"".toList ++ key' ++ "\":null\x7d".toList)
  | _ => []

def sampleText : JsonText where
  write := sampleWrite
  read := fun bytes => ([pingMessage, doneMessage, nullMessage].map JSONRPCMessage.toValue).find? (sampleWrite · = bytes)
  readStr := fun _ => none
  parseNumber := fun _ => none

def pingFrame : Bytes := [0, 0, 0, 17] ++ asciiBytes "\x7b\"method\":\"ping\"\x7d".toList
def doneFrame : Bytes := [0, 0, 0, 17] ++ asciiBytes "\x7b\"method\":\"done\"\x7d".toList
def nullFrame : Bytes := [0, 0, 0, 31] ++ asciiBytes "\x7b\"method\":\"done\",\"params\":null\x7d".toList

/-- Two frames cut inside the first length and inside the second text. -/
def sampleRecords : List Bytes := [pingFrame.take 3, pingFrame.drop 3 ++ doneFrame.take 9, doneFrame.drop 9]

theorem readable_notification {method : Text}
    (h : sampleText.ReadsBack (JSONRPCMessage.notification { method, params := none }).toValue) :
    Readable sampleText (.notification { method, params := none }) where
  readsBack := h
  plain := ⟨List.nodup_singleton methodKey, fun key hkey => by
    obtain rfl : methodKey = key := Option.some.inj hkey
    decide, trivial, trivial⟩
  within := show 2 ≤ maxJsonrpcValueNodes by decide
  noExplicitNull := by simp [JSONRPCMessage.NoExplicitNull]

theorem pushAll_frames_cut :
    JsonRpcMessageDecoder.pushAll sampleText {} sampleRecords = (.ok [pingMessage, doneMessage], {}) := by
  have hframes : Frames sampleText [pingMessage, doneMessage] [pingFrame, doneFrame] := .cons rfl (.cons rfl .nil)
  have hread : ∀ message ∈ [pingMessage, doneMessage], Readable sampleText message := by
    intro message hmem
    simp only [List.mem_cons, List.not_mem_nil, or_false] at hmem
    rcases hmem with rfl | rfl
    · exact readable_notification rfl
    · exact readable_notification rfl
  have hcut : sampleRecords.flatten = [pingFrame, doneFrame].flatten := by decide
  exact (JsonRpcMessageDecoder.pushAll_frames rfl hframes hread hcut (by decide)).1

/-- The explicit `null` is framed and comes back as no parameters at all. -/
theorem pushAll_explicitNull :
    frameJsonrpcMessage sampleText nullMessage = .ok nullFrame ∧
      JsonRpcMessageDecoder.pushAll sampleText {} [nullFrame] = (.ok [doneMessage], {}) ∧ doneMessage ≠ nullMessage := by
  have hframe : frameJsonrpcMessage sampleText nullMessage = .ok nullFrame := rfl
  have hdecode : decodeFrames sampleText nullFrame [] = (.ok [doneMessage], []) := by
    have hslice : JSONRPCMessage.fromSlice sampleText (sampleText.write nullMessage.toValue) = some doneMessage := rfl
    have hstep := decodeFrames_frame (by decide) hslice hframe [] []
    rw [List.append_nil] at hstep
    rw [hstep]
    unfold decodeFrames
    rfl
  have hpush : JsonRpcMessageDecoder.push sampleText {} nullFrame = (.ok [doneMessage], {}) := by
    unfold JsonRpcMessageDecoder.push
    simp only [List.nil_append, hdecode]
    rfl
  refine ⟨hframe, ?_, fun h => by cases h⟩
  simp only [JsonRpcMessageDecoder.pushAll, hpush, List.append_nil]

end Codex.NoiseRelay
