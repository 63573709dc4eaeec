/-
The server's side of the remote control websocket: what it sends is kept until
the backend acknowledges it, and sent again after a reconnect.

The writer of a connection first sends again what is kept, then takes one event
at a time from the queue, numbers it, cuts it into envelopes, keeps and sends
them. The reader applies acks. A connection may end at any await of either; the
state and the queue outlive it.

Source: app-server-transport/src/transport/remote_control/websocket.rs
(BoundedOutboundBuffer, WebsocketState, run_server_writer_inner).
-/
import Codex.Lib.FiniteMaps
import Codex.Lib.Runs
import Codex.ServerSegments
import Mathlib.Data.List.AList

namespace Codex.RemoteControl

open Runs

variable {Outgoing : Type}

/-! ## The buffer -/

structure BoundedOutboundBuffer (Outgoing : Type) where
  bufferByStream : AList fun _ : ClientKey => List (ServerEnvelope Outgoing) := ∅
  used : Nat := 0

/-- Lexicographic `<=` on (seq id, segment id). -/
def cursorLe (a b : U64 × Usize) : Bool := decide (a.1 < b.1) || (decide (a.1 = b.1) && decide (a.2 ≤ b.2))

def ServerEnvelope.cursor (e : ServerEnvelope Outgoing) : U64 × Usize := (e.seqId, e.event.segmentId.getD 0)

/-- `*used -= 1`, nothing where that underflows. -/
def decrement : Nat → Option Nat
  | 0 => none
  | used + 1 => some used

/-- `buffer.retain(..)`: each envelope that is acked is taken off the count. -/
def retainUnacked (ackedCursor : U64 × Usize) :
    List (ServerEnvelope Outgoing) → Nat → Option (List (ServerEnvelope Outgoing) × Nat)
  | [], used => some ([], used)
  | e :: rest, used =>
    if cursorLe e.cursor ackedCursor then do
      retainUnacked ackedCursor rest (← decrement used)
    else do
      let (kept, used) ← retainUnacked ackedCursor rest used
      return (e :: kept, used)

def totalLength (entries : List (Sigma fun _ : ClientKey => List (ServerEnvelope Outgoing))) : Nat :=
  (entries.map fun entry => entry.2.length).sum

namespace BoundedOutboundBuffer

def buffered (b : BoundedOutboundBuffer Outgoing) (key : ClientKey) : List (ServerEnvelope Outgoing) :=
  (b.bufferByStream.lookup key).getD []

def insert (b : BoundedOutboundBuffer Outgoing) (e : ServerEnvelope Outgoing) : BoundedOutboundBuffer Outgoing :=
  { bufferByStream := b.bufferByStream.insert e.key (b.buffered e.key ++ [e]), used := b.used + 1 }

/-- A stream with nothing left is removed. -/
def setBuffer (m : AList fun _ : ClientKey => List (ServerEnvelope Outgoing)) (key : ClientKey)
    (buffer : List (ServerEnvelope Outgoing)) : AList fun _ : ClientKey => List (ServerEnvelope Outgoing) :=
  if buffer.isEmpty then m.erase key else m.insert key buffer

/-- Nothing where the count would go below zero. -/
def ack (b : BoundedOutboundBuffer Outgoing) (clientId : ClientId) (streamId : StreamId) (ackedSeqId : U64)
    (ackedSegmentId : Option Usize) : Option (BoundedOutboundBuffer Outgoing) :=
  let key := (clientId, streamId)
  match b.bufferByStream.lookup key with
  | none => some b
  | some buffer => do
    let (kept, used) ← retainUnacked (ackedSeqId, ackedSegmentId.getD usizeMax) buffer b.used
    return { bufferByStream := setBuffer b.bufferByStream key kept, used }

/-- All buffered envelopes, the streams in the order the map is walked in. -/
def serverEnvelopes (b : BoundedOutboundBuffer Outgoing) (order : List ClientKey) : List (ServerEnvelope Outgoing) :=
  order.flatMap b.buffered

def total (b : BoundedOutboundBuffer Outgoing) : Nat := totalLength b.bufferByStream.entries

end BoundedOutboundBuffer

/-! ## The machine -/

structure WebsocketState (Outgoing : Type) where
  outboundBuffer : BoundedOutboundBuffer Outgoing := {}
  subscribeCursor : Option Text := none
  nextSeqIdByStream : AList fun _ : ClientKey => U64 := ∅
  lastCompletedClientChunkSeqIdByStream : AList fun _ : ClientId × Option StreamId => U64 := ∅

/-- The subscribe cursor and the last completed chunk of a delivered client envelope. -/
def WebsocketState.recordCursors (w : WebsocketState Outgoing) (e : ClientEnvelope)
    (clientMessageKey : Option ((ClientId × Option StreamId) × U64)) : WebsocketState Outgoing :=
  { w with
    subscribeCursor := e.cursor.or w.subscribeCursor
    lastCompletedClientChunkSeqIdByStream :=
      match clientMessageKey with
      | some (key, seqId) => w.lastCompletedClientChunkSeqIdByStream.insert key seqId
      | none => w.lastCompletedClientChunkSeqIdByStream }

/-- Where the writer of a connection is: before it looks at the buffer; with envelopes to send; with an event from the
queue, before it has the state; stopped. -/
inductive Writer (Outgoing : Type) where
  | starting
  | sending (left : List (ServerEnvelope Outgoing))
  | received (queued : QueuedServerEnvelope Outgoing)
  | stopped

inductive LogEntry (Outgoing : Type) where
  | enqueued (e : ServerEnvelope Outgoing)
  | acked (key : ClientKey) (seqId : U64) (segmentId : Option Usize)

/-- What the writer of a connection found buffered, and how long the log was then. -/
structure Replay (Outgoing : Type) where
  serverEnvelopes : List (ServerEnvelope Outgoing)
  logged : Nat

/-- A connection, with what it has sent, in order. -/
structure Connection (Outgoing : Type) where
  writer : Writer Outgoing := .starting
  replay : Option (Replay Outgoing) := none
  wire : List (ServerEnvelope Outgoing) := []

/-- `log` is what was enqueued and what was acked, in order. -/
structure Server (Outgoing : Type) where
  state : WebsocketState Outgoing := {}
  queue : List (QueuedServerEnvelope Outgoing) := []
  connection : Option (Connection Outgoing) := none
  log : List (LogEntry Outgoing) := []
  underflowed : Bool := false

inductive Action (Outgoing : Type) where
  | enqueue (queued : QueuedServerEnvelope Outgoing)
  | connect
  | collect (order : List ClientKey)
  | send (ok : Bool)
  | receive
  | record
  | delivered (e : ClientEnvelope) (clientMessageKey : Option ((ClientId × Option StreamId) × U64))
  | stopWriter
  | disconnect

def channelCapacity : Nat := 128

namespace Server

def setWriter (s : Server Outgoing) (c : Connection Outgoing) (writer : Writer Outgoing) : Server Outgoing :=
  { s with connection := some { c with writer } }

/-- The writer looks at the buffer and is left with what can be written of it. -/
def collect (serde : Serializer Outgoing) (s : Server Outgoing) (order : List ClientKey) (c : Connection Outgoing) :
    Server Outgoing :=
  let serverEnvelopes := s.state.outboundBuffer.serverEnvelopes order
  { s with connection := some { c with
      writer := .sending (serverEnvelopes.filter fun e => (serde.envelope e).isSome)
      replay := some { serverEnvelopes, logged := s.log.length } } }

/-- An envelope is kept if it can be written. -/
def keep (serde : Serializer Outgoing) (s : Server Outgoing) (e : ServerEnvelope Outgoing) : Server Outgoing :=
  match serde.envelope e with
  | none => s
  | some _ => { s with
      state := { s.state with outboundBuffer := s.state.outboundBuffer.insert e }
      log := s.log ++ [.enqueued e] }

def setNextSeqId (s : Server Outgoing) (key : ClientKey) (seqId : U64) : Server Outgoing :=
  { s with state := { s.state with nextSeqIdByStream := s.state.nextSeqIdByStream.insert key seqId } }

/-- What the writer does with an event while it has the state. -/
def record (serde : Serializer Outgoing) (s : Server Outgoing) (queued : QueuedServerEnvelope Outgoing)
    (c : Connection Outgoing) : Server Outgoing :=
  let seqKey := queued.key
  let seqId := (s.state.nextSeqIdByStream.lookup seqKey).getD 1
  let s := s.setNextSeqId seqKey seqId
  let serverEnvelope := { event := queued.event, clientId := queued.clientId, seqId, streamId := queued.streamId }
  match splitServerEnvelopeForTransport serde serverEnvelope with
  | none => s.setWriter c (.sending [])
  | some serverEnvelopes =>
    ((serverEnvelopes.foldl (keep serde) s).setNextSeqId seqKey seqId.saturatingSucc).setWriter c
      (.sending (serverEnvelopes.filter fun e => (serde.envelope e).isSome))

def ack (s : Server Outgoing) (clientId : ClientId) (streamId : StreamId) (ackedSeqId : U64)
    (ackedSegmentId : Option Usize) : Server Outgoing :=
  match s.state.outboundBuffer.ack clientId streamId ackedSeqId ackedSegmentId with
  | none => { s with underflowed := true }
  | some outboundBuffer => { s with
      state := { s.state with outboundBuffer }
      log := s.log ++ [.acked (clientId, streamId) ackedSeqId ackedSegmentId] }

def recordClientMessageDelivery (s : Server Outgoing) (e : ClientEnvelope)
    (clientMessageKey : Option ((ClientId × Option StreamId) × U64)) : Server Outgoing :=
  let s := { s with state := s.state.recordCursors e clientMessageKey }
  match e.event, e.seqId, e.streamId with
  | .ack segmentId, some ackedSeqId, some streamId => s.ack e.clientId streamId ackedSeqId segmentId
  | _, _, _ => s

def step (serde : Serializer Outgoing) (s : Server Outgoing) (a : Action Outgoing) : Server Outgoing :=
  match a, s.connection with
  | .enqueue queued, _ => { s with queue := s.queue ++ [queued] }
  | .connect, none => { s with connection := some {} }
  | .connect, some _ => s
  | .disconnect, _ => { s with connection := none }
  | _, none => s
  | .collect order, some c =>
    match c.writer with
    | .starting => if order.Perm s.state.outboundBuffer.bufferByStream.keys then s.collect serde order c else s
    | _ => s
  | .send ok, some c =>
    match c.writer with
    | .sending (e :: left) =>
      if ok then s.setWriter { c with wire := c.wire ++ [e] } (.sending left) else s.setWriter c .stopped
    | _ => s
  | .receive, some c =>
    match c.writer, s.queue with
    | .sending [], queued :: queue =>
      if s.state.outboundBuffer.used < channelCapacity then { s with queue }.setWriter c (.received queued) else s
    | _, _ => s
  | .record, some c =>
    match c.writer with
    | .received queued => s.record serde queued c
    | _ => s
  | .delivered e clientMessageKey, some _ => s.recordClientMessageDelivery e clientMessageKey
  | .stopWriter, some c => s.setWriter c .stopped

end Server

/-! ## What is unacknowledged -/

/-- The cursor of an ack is at or after the envelope's; an ack without a segment covers all of its number. -/
def covers (seqId : U64) (segmentId : Option Usize) (e : ServerEnvelope Outgoing) : Bool :=
  decide (e.seqId < seqId) ||
    (decide (e.seqId = seqId) && segmentId.all fun segmentId => decide (e.event.segmentId.getD 0 ≤ segmentId))

def LogEntry.acks (e : ServerEnvelope Outgoing) : LogEntry Outgoing → Bool
  | .enqueued _ => false
  | .acked key seqId segmentId => decide (key = e.key) && covers seqId segmentId e

/-- The envelopes enqueued for a stream that no later ack covers. -/
def unacked (key : ClientKey) : List (LogEntry Outgoing) → List (ServerEnvelope Outgoing)
  | [] => []
  | .acked .. :: log => unacked key log
  | .enqueued e :: log => if e.key = key ∧ log.any (LogEntry.acks e) = false then e :: unacked key log else unacked key log

/-- All envelopes enqueued, in order. -/
def enqueued : List (LogEntry Outgoing) → List (ServerEnvelope Outgoing)
  | [] => []
  | .acked .. :: log => enqueued log
  | .enqueued e :: log => e :: enqueued log

variable (e : ServerEnvelope Outgoing)

theorem any_acks_concat (log : List (LogEntry Outgoing)) (entry : LogEntry Outgoing) :
    (log ++ [entry]).any (LogEntry.acks e) = (log.any (LogEntry.acks e) || entry.acks e) := by
  rw [List.any_append, List.any_cons, List.any_nil, Bool.or_false]

variable (key : ClientKey) {b : BoundedOutboundBuffer Outgoing}

theorem unacked_concat_enqueued (log : List (LogEntry Outgoing)) (e : ServerEnvelope Outgoing) :
    unacked key (log ++ [.enqueued e]) = unacked key log ++ if e.key = key then [e] else [] := by
  induction log with
  | nil => simp [unacked]
  | cons entry log ih =>
    cases entry with
    | acked => exact ih
    | enqueued e' =>
      have hacks : (log ++ [LogEntry.enqueued e]).any (LogEntry.acks e') = log.any (LogEntry.acks e') := by
        rw [any_acks_concat, LogEntry.acks, Bool.or_false]
      rw [List.cons_append, unacked, unacked, ih, hacks]
      split
      · rw [List.cons_append]
      · rfl

theorem unacked_concat_acked (log : List (LogEntry Outgoing)) (key' : ClientKey) (seqId : U64)
    (segmentId : Option Usize) :
    unacked key (log ++ [.acked key' seqId segmentId]) =
      (unacked key log).filter fun e => !(decide (key' = key) && covers seqId segmentId e) := by
  induction log with
  | nil => rfl
  | cons entry log ih =>
    cases entry with
    | acked => exact ih
    | enqueued e =>
      rw [List.cons_append, unacked, unacked, ih, any_acks_concat, LogEntry.acks]
      by_cases he : e.key = key
      · subst he
        cases hold : log.any (LogEntry.acks e) with
        | true => rw [if_neg (by simp), if_neg (by simp)]
        | false =>
          rw [if_pos (c := e.key = e.key ∧ false = false) ⟨rfl, rfl⟩, List.filter_cons]
          cases hcov : decide (key' = e.key) && covers seqId segmentId e <;> simp
      · rw [if_neg (by simp [he]), if_neg (by simp [he])]

theorem key_of_unacked {key : ClientKey} {log : List (LogEntry Outgoing)} {e : ServerEnvelope Outgoing}
    (h : e ∈ unacked key log) : e.key = key := by
  induction log with
  | nil => cases h
  | cons entry log ih =>
    cases entry with
    | acked => exact ih h
    | enqueued e' =>
      unfold unacked at h
      split at h
      next hnew =>
        rcases List.mem_cons.1 h with rfl | hold
        · exact hnew.1
        · exact ih hold
      next => exact ih h

theorem enqueued_append (log log' : List (LogEntry Outgoing)) : enqueued (log ++ log') = enqueued log ++ enqueued log' := by
  induction log with
  | nil => rfl
  | cons entry log ih =>
    cases entry with
    | acked => exact ih
    | enqueued e => exact congrArg (e :: ·) ih

/-! ## The buffer's operations -/

theorem cursorLe_eq_covers (seqId : U64) (segmentId : Option Usize) :
    cursorLe e.cursor (seqId, segmentId.getD usizeMax) = covers seqId segmentId e := by
  cases segmentId with
  | none =>
    have hle : e.event.segmentId.getD 0 ≤ usizeMax := Fin.le_last _
    simp [cursorLe, covers, ServerEnvelope.cursor, hle]
    rfl
  | some segmentId => rfl

/-- With the whole buffer counted, the loop drops what is acked and takes it off the count. -/
theorem retainUnacked_eq (acked : U64 × Usize) (buffer : List (ServerEnvelope Outgoing)) (others : Nat) :
    retainUnacked acked buffer (others + buffer.length) =
      some (buffer.filter (!cursorLe ·.cursor acked), others + (buffer.filter (!cursorLe ·.cursor acked)).length) := by
  induction buffer generalizing others with
  | nil => rfl
  | cons e rest ih =>
    rw [retainUnacked]
    cases hle : cursorLe e.cursor acked with
    | true =>
      have hcount : decrement (others + (e :: rest).length) = some (others + rest.length) := rfl
      rw [if_pos rfl, hcount]
      show retainUnacked acked rest _ = _
      simp only [ih, List.filter_cons, hle, Bool.not_true, Bool.false_eq_true, if_false]
    | false =>
      have hcount : others + (e :: rest).length = others + 1 + rest.length := by rw [List.length_cons]; omega
      rw [if_neg Bool.false_ne_true, hcount, ih]
      simp only [List.filter_cons, hle, Bool.not_false, if_true, List.length_cons]
      show some (_, _) = _
      congr 2
      omega

theorem totalLength_eq {entries : List (Sigma fun _ : ClientKey => List (ServerEnvelope Outgoing))}
    (h : entries.NodupKeys) :
    totalLength entries = totalLength (entries.kerase key) + ((entries.dlookup key).getD []).length := by
  have hsum := FiniteMaps.sum_eq (fun _ => List.length) key h
  cases hlookup : entries.dlookup key with
  | none => rw [hlookup] at hsum; exact hsum
  | some buffer => rw [hlookup] at hsum; exact hsum

namespace BoundedOutboundBuffer

/-- The count is the number of envelopes buffered. -/
def Counted (b : BoundedOutboundBuffer Outgoing) : Prop := b.used = b.total

theorem total_eq (b : BoundedOutboundBuffer Outgoing) (key : ClientKey) :
    b.total = totalLength (b.bufferByStream.entries.kerase key) + (b.buffered key).length :=
  totalLength_eq key b.bufferByStream.nodupKeys

theorem total_insertKey (m : AList fun _ : ClientKey => List (ServerEnvelope Outgoing)) (key : ClientKey)
    (buffer : List (ServerEnvelope Outgoing)) :
    totalLength (m.insert key buffer).entries = totalLength (m.entries.kerase key) + buffer.length := by
  rw [AList.entries_insert, Nat.add_comm]
  rfl

theorem totalLength_setBuffer (m : AList fun _ : ClientKey => List (ServerEnvelope Outgoing)) (key : ClientKey)
    (buffer : List (ServerEnvelope Outgoing)) :
    totalLength (setBuffer m key buffer).entries = totalLength (m.entries.kerase key) + buffer.length := by
  cases buffer with
  | nil => rfl
  | cons e rest => exact total_insertKey m key (e :: rest)

theorem lookup_setBuffer (m : AList fun _ : ClientKey => List (ServerEnvelope Outgoing)) (key key' : ClientKey)
    (buffer : List (ServerEnvelope Outgoing)) :
    ((setBuffer m key buffer).lookup key').getD [] = if key = key' then buffer else (m.lookup key').getD [] := by
  unfold setBuffer
  by_cases hkey : key = key'
  · subst hkey
    cases buffer with
    | nil => simp
    | cons e rest => simp
  · rw [if_neg hkey]
    cases buffer with
    | nil => simp [AList.lookup_erase_ne (Ne.symm hkey)]
    | cons e rest => simp [AList.lookup_insert_ne (Ne.symm hkey)]

theorem buffered_insert (b : BoundedOutboundBuffer Outgoing) (e : ServerEnvelope Outgoing) (key : ClientKey) :
    (b.insert e).buffered key = b.buffered key ++ if e.key = key then [e] else [] := by
  unfold buffered insert
  by_cases hkey : e.key = key
  · subst hkey
    rw [AList.lookup_insert, if_pos rfl]
    rfl
  · rw [AList.lookup_insert_ne (Ne.symm hkey), if_neg hkey, List.append_nil]

theorem counted_insert (h : b.Counted) (e : ServerEnvelope Outgoing) : (b.insert e).Counted := by
  have htotal := total_insertKey b.bufferByStream e.key (b.buffered e.key ++ [e])
  rw [List.length_append, List.length_singleton, ← Nat.add_assoc, ← total_eq] at htotal
  exact (congrArg (· + 1) h).trans htotal.symm

/-- **An ack takes exactly what it covers off the buffer, and the count never underflows.** -/
theorem ack_eq (h : b.Counted) (clientId : ClientId) (streamId : StreamId)
    (seqId : U64) (segmentId : Option Usize) :
    ∃ b', b.ack clientId streamId seqId segmentId = some b' ∧ b'.Counted ∧
      ∀ key, b'.buffered key =
        (b.buffered key).filter fun e => !(decide ((clientId, streamId) = key) && covers seqId segmentId e) := by
  have htotal := total_eq b (clientId, streamId)
  unfold ack
  cases hlookup : b.bufferByStream.lookup (clientId, streamId) with
  | none =>
    refine ⟨b, by simp only [hlookup], h, fun key => ?_⟩
    by_cases hkey : (clientId, streamId) = key
    · subst hkey
      simp [buffered, hlookup]
    · simp [hkey]
  | some buffer =>
    have hbuffered : b.buffered (clientId, streamId) = buffer := by rw [buffered, hlookup]; rfl
    rw [hbuffered, ← h] at htotal
    have hretain := retainUnacked_eq (seqId, segmentId.getD usizeMax) buffer
      (totalLength (b.bufferByStream.entries.kerase (clientId, streamId)))
    simp only [← htotal, cursorLe_eq_covers] at hretain
    simp only [hlookup, hretain]
    refine ⟨_, rfl, (totalLength_setBuffer ..).symm, fun key => ?_⟩
    unfold buffered
    rw [lookup_setBuffer]
    by_cases hkey : (clientId, streamId) = key
    · subst hkey
      simp [hlookup]
    · simp [hkey]

end BoundedOutboundBuffer

/-! ## Every run -/

theorem mem_enqueued_of_unacked {key : ClientKey} {log : List (LogEntry Outgoing)} {e : ServerEnvelope Outgoing}
    (h : e ∈ unacked key log) : e ∈ enqueued log := by
  induction log with
  | nil => cases h
  | cons entry log ih =>
    cases entry with
    | acked => exact ih h
    | enqueued e' =>
      unfold unacked at h
      split at h
      next =>
        rcases List.mem_cons.1 h with rfl | hold
        · exact List.mem_cons_self ..
        · exact List.mem_cons_of_mem _ (ih hold)
      next => exact List.mem_cons_of_mem _ (ih h)

variable (es : List (ServerEnvelope Outgoing))

theorem enqueued_map : enqueued (es.map LogEntry.enqueued) = es := by
  induction es with
  | nil => rfl
  | cons e es ih => exact congrArg (e :: ·) ih

/-- Walking the streams in any order, each stream's envelopes come in theirs. -/
theorem filter_serverEnvelopes {order}
    (horder : order.Perm b.bufferByStream.keys) (hkeys : ∀ key, ∀ e ∈ b.buffered key, e.key = key) (key : ClientKey) :
    (b.serverEnvelopes order).filter (·.key = key) = b.buffered key := by
  have hwalk : ∀ order : List ClientKey, order.Nodup →
      (order.flatMap b.buffered).filter (·.key = key) = if key ∈ order then b.buffered key else [] := by
    intro order hnodup
    induction order with
    | nil => rfl
    | cons key' order ih =>
      obtain ⟨hnew, hnodup⟩ := List.nodup_cons.1 hnodup
      rw [List.flatMap_cons, List.filter_append, ih hnodup]
      by_cases hkey : key = key'
      · subst hkey
        rw [if_neg hnew, if_pos (List.mem_cons_self ..), List.append_nil]
        exact List.filter_eq_self.2 fun e he => decide_eq_true (hkeys key e he)
      · have hnone : (b.buffered key').filter (·.key = key) = [] :=
          List.filter_eq_nil_iff.2 fun e he => by simp [hkeys key' e he, Ne.symm hkey]
        rw [hnone, List.nil_append]
        simp [hkey]
  rw [BoundedOutboundBuffer.serverEnvelopes, hwalk order (horder.nodup_iff.2 b.bufferByStream.keys_nodup)]
  split
  next => rfl
  next hnot =>
    have hlookup : b.bufferByStream.lookup key = none := AList.lookup_eq_none.2 fun hin => hnot (horder.mem_iff.2 hin)
    rw [BoundedOutboundBuffer.buffered, hlookup]
    rfl

/-- What a connection that found `replay` has to send. -/
def Replay.due (replay : Replay Outgoing) (log : List (LogEntry Outgoing)) : List (ServerEnvelope Outgoing) :=
  replay.serverEnvelopes ++ enqueued (log.drop replay.logged)

def Writer.left : Writer Outgoing → List (ServerEnvelope Outgoing)
  | .sending left => left
  | .starting | .received _ | .stopped => []

/-- The connection found what was unacknowledged then, and sends that before
what was enqueued since; it takes an event only when all of it is sent. -/
structure Connection.Resends (c : Connection Outgoing) (log : List (LogEntry Outgoing)) (replay : Replay Outgoing) : Prop where
  started : c.writer ≠ .starting
  logged : replay.logged ≤ log.length
  found : ∀ key, replay.serverEnvelopes.filter (·.key = key) = unacked key (log.take replay.logged)
  wire : c.wire <+: replay.due log
  sending : c.writer ≠ .stopped → c.wire ++ c.writer.left = replay.due log

/-- Before it looks at the buffer a connection sends nothing. -/
def Connection.InOrder (c : Connection Outgoing) (log : List (LogEntry Outgoing)) : Prop :=
  match c.replay with
  | none => c.wire = [] ∧ (c.writer = .starting ∨ c.writer = .stopped)
  | some replay => c.Resends log replay

theorem Replay.due_append {replay : Replay Outgoing} {log : List (LogEntry Outgoing)} (h : replay.logged ≤ log.length)
    (more : List (LogEntry Outgoing)) : replay.due (log ++ more) = replay.due log ++ enqueued more := by
  unfold Replay.due
  rw [List.drop_append_of_le_length h, enqueued_append, List.append_assoc]

variable {queued : QueuedServerEnvelope Outgoing}

namespace Connection

variable {c : Connection Outgoing} {log : List (LogEntry Outgoing)} {replay : Replay Outgoing}

theorem inOrder_none (hreplay : c.replay = none) :
    c.InOrder log ↔ c.wire = [] ∧ (c.writer = .starting ∨ c.writer = .stopped) := by
  unfold InOrder
  rw [hreplay]

theorem inOrder_some (hreplay : c.replay = some replay) : c.InOrder log ↔ c.Resends log replay := by
  unfold InOrder
  rw [hreplay]

theorem inOrder_of_resends (hreplay : c.replay = some replay) (h : c.Resends log replay) :
    c.InOrder log := (inOrder_some hreplay).2 h

/-- A writer between its start and its stop has looked at the buffer. -/
theorem InOrder.resends (h : c.InOrder log) (hstart : c.writer ≠ .starting) (hstop : c.writer ≠ .stopped) :
    ∃ replay, c.replay = some replay ∧ c.Resends log replay ∧ c.wire ++ c.writer.left = replay.due log := by
  cases hreplay : c.replay with
  | none =>
    rcases ((inOrder_none hreplay).1 h).2 with hw | hw
    · exact absurd hw hstart
    · exact absurd hw hstop
  | some replay =>
    have hr := (inOrder_some hreplay).1 h
    exact ⟨replay, rfl, hr, hr.sending hstop⟩

/-- The log grows by nothing the connection sends, or by what it is to send next. -/
theorem Resends.append (h : c.Resends log replay) (more : List (LogEntry Outgoing)) {c' : Connection Outgoing}
    (hstart : c'.writer ≠ .starting) (hwire : c'.wire = c.wire)
    (hsending : c'.writer ≠ .stopped → c'.wire ++ c'.writer.left = replay.due (log ++ more)) :
    c'.Resends (log ++ more) replay := by
  refine ⟨hstart, ?_, fun key => ?_, ?_, hsending⟩
  · rw [List.length_append]
    exact Nat.le_add_right_of_le h.logged
  · rw [List.take_append_of_le_length h.logged]
    exact h.found key
  · rw [hwire, Replay.due_append h.logged]
    exact h.wire.trans (List.prefix_append ..)

/-- An ack does not touch what the connection sends. -/
theorem InOrder.acked (h : c.InOrder log) (key : ClientKey) (seqId : U64) (segmentId : Option Usize) :
    c.InOrder (log ++ [.acked key seqId segmentId]) := by
  cases hreplay : c.replay with
  | none => exact (inOrder_none hreplay).2 ((inOrder_none hreplay).1 h)
  | some replay =>
    have hr := (inOrder_some hreplay).1 h
    refine inOrder_of_resends hreplay (hr.append _ hr.started rfl fun hstop => ?_)
    rw [Replay.due_append hr.logged, hr.sending hstop]
    exact (List.append_nil _).symm

/-- With nothing left to send, what is enqueued is what is left next. -/
theorem InOrder.admitted (h : c.InOrder log) (hwriter : c.writer = .received queued)
    (es : List (ServerEnvelope Outgoing)) :
    ({ c with writer := .sending es } : Connection Outgoing).InOrder (log ++ es.map .enqueued) := by
  obtain ⟨replay, hreplay, hr, hsent⟩ := h.resends (by rw [hwriter]; exact nofun) (by rw [hwriter]; exact nofun)
  rw [hwriter] at hsent
  refine inOrder_of_resends hreplay (hr.append _ nofun rfl fun _ => ?_)
  rw [Replay.due_append hr.logged, enqueued_map, ← hsent]
  exact congrArg (· ++ es) (List.append_nil _).symm

theorem InOrder.stopped (h : c.InOrder log) : ({ c with writer := .stopped } : Connection Outgoing).InOrder log := by
  cases hreplay : c.replay with
  | none =>
    have hwire := ((inOrder_none hreplay).1 h).1
    exact (inOrder_none rfl).2 ⟨hwire, .inr rfl⟩
  | some replay =>
    have hr := (inOrder_some hreplay).1 h
    exact inOrder_of_resends rfl ⟨nofun, hr.logged, hr.found, hr.wire, fun hne => absurd rfl hne⟩

theorem InOrder.sent {e left} (h : c.InOrder log) (hwriter : c.writer = .sending (e :: left)) :
    ({ c with wire := c.wire ++ [e], writer := .sending left } : Connection Outgoing).InOrder log := by
  obtain ⟨replay, hreplay, hr, hsent⟩ := h.resends (by rw [hwriter]; exact nofun) (by rw [hwriter]; exact nofun)
  rw [hwriter] at hsent
  have hnext : (c.wire ++ [e]) ++ left = replay.due log := (List.append_cons ..).symm.trans hsent
  exact inOrder_of_resends hreplay ⟨nofun, hr.logged, hr.found, ⟨left, hnext⟩, fun _ => hnext⟩

theorem InOrder.received (h : c.InOrder log) (hwriter : c.writer = .sending []) (queued : QueuedServerEnvelope Outgoing) :
    ({ c with writer := .received queued } : Connection Outgoing).InOrder log := by
  obtain ⟨replay, hreplay, hr, hsent⟩ := h.resends (by rw [hwriter]; exact nofun) (by rw [hwriter]; exact nofun)
  rw [hwriter] at hsent
  exact inOrder_of_resends hreplay ⟨nofun, hr.logged, hr.found, hr.wire, fun _ => hsent⟩

end Connection

namespace Server

/-- The buffer against the log; whatever is kept can be written again. -/
structure Held (serde : Serializer Outgoing) (s : Server Outgoing) : Prop where
  buffered : ∀ key, s.state.outboundBuffer.buffered key = unacked key s.log
  counted : s.state.outboundBuffer.Counted
  noUnderflow : s.underflowed = false
  written : ∀ e ∈ enqueued s.log, (serde.envelope e).isSome

/-- The invariant of every run. -/
structure Kept (serde : Serializer Outgoing) (s : Server Outgoing) : Prop extends Held serde s where
  inOrder : ∀ c ∈ s.connection, c.InOrder s.log

variable {serde : Serializer Outgoing} {s : Server Outgoing} {c : Connection Outgoing}

theorem Kept.collect (h : s.Kept serde) {order : List ClientKey}
    (horder : order.Perm s.state.outboundBuffer.bufferByStream.keys) (hc : c.InOrder s.log) (hwriter : c.writer = .starting) :
    (s.collect serde order c).Kept serde := by
  have hkeys : ∀ key, ∀ e ∈ s.state.outboundBuffer.buffered key, e.key = key := by
    intro key e he
    rw [h.buffered] at he
    exact key_of_unacked he
  have hfilter := filter_serverEnvelopes horder hkeys
  have hwire : c.wire = [] := by
    cases hreplay : c.replay with
    | none => exact ((Connection.inOrder_none hreplay).1 hc).1
    | some replay => exact absurd hwriter ((Connection.inOrder_some hreplay).1 hc).started
  have hwritten : (s.state.outboundBuffer.serverEnvelopes order).filter (fun e => (serde.envelope e).isSome) =
      s.state.outboundBuffer.serverEnvelopes order := by
    refine List.filter_eq_self.2 fun e he => h.written e ?_
    obtain ⟨key, -, he⟩ := List.mem_flatMap.1 he
    rw [h.buffered] at he
    exact mem_enqueued_of_unacked he
  have hdue : enqueued (s.log.drop s.log.length) = [] := by rw [List.drop_length]; rfl
  refine { h with inOrder := fun _ hin => (Option.mem_some.1 hin) ▸ ?_ }
  refine Connection.inOrder_of_resends rfl ⟨nofun, le_rfl, fun key => ?_, ?_, fun _ => ?_⟩
  · show _ = unacked key (s.log.take s.log.length)
    rw [List.take_length, ← h.buffered, ← hfilter]
  · show c.wire <+: _
    rw [hwire]
    exact List.nil_prefix
  · show c.wire ++ List.filter _ _ = _ ++ enqueued (s.log.drop s.log.length)
    rw [hwire, hwritten, hdue, List.nil_append, List.append_nil]

theorem Held.keep (h : s.Held serde) (e : ServerEnvelope Outgoing) : (s.keep serde e).Held serde := by
  unfold Server.keep
  cases hpayload : serde.envelope e with
  | none => exact h
  | some payload =>
    refine ⟨fun key => ?_, BoundedOutboundBuffer.counted_insert h.counted e, h.noUnderflow, fun e' he' => ?_⟩
    · show (s.state.outboundBuffer.insert e).buffered key = unacked key (s.log ++ [.enqueued e])
      rw [BoundedOutboundBuffer.buffered_insert, unacked_concat_enqueued, h.buffered]
    · have hin : e' ∈ enqueued (s.log ++ [.enqueued e]) := he'
      rw [enqueued_append] at hin
      rcases List.mem_append.1 hin with hold | hnew
      · exact h.written e' hold
      · rw [List.mem_singleton.1 hnew, hpayload]
        rfl

theorem Held.keepAll (h : s.Held serde) (es : List (ServerEnvelope Outgoing)) : (es.foldl (Server.keep serde) s).Held serde := by
  induction es generalizing s with
  | nil => exact h
  | cons e es ih => exact ih (h.keep e)

theorem log_keepAll :
    (es.foldl (keep serde) s).log = s.log ++ (es.filter fun e => (serde.envelope e).isSome).map .enqueued := by
  induction es generalizing s with
  | nil => exact (List.append_nil _).symm
  | cons e es ih =>
    rw [List.foldl_cons, ih, List.filter_cons]
    unfold keep
    cases serde.envelope e with
    | none => rfl
    | some payload => simp

theorem Held.setNextSeqId (h : s.Held serde) (key : ClientKey) (seqId : U64) : (s.setNextSeqId key seqId).Held serde :=
  ⟨h.buffered, h.counted, h.noUnderflow, h.written⟩

theorem Held.setWriter (h : s.Held serde) {writer}
    (hc : ({ c with writer } : Connection Outgoing).InOrder s.log) : (s.setWriter c writer).Kept serde :=
  ⟨⟨h.buffered, h.counted, h.noUnderflow, h.written⟩, fun _ hin => (Option.mem_some.1 hin) ▸ hc⟩

theorem Kept.record (h : s.Kept serde) (hc : c.InOrder s.log)
    (hwriter : c.writer = .received queued) : (s.record serde queued c).Kept serde := by
  unfold Server.record
  dsimp only
  split
  next =>
    have hnext := hc.admitted hwriter []
    rw [List.map_nil, List.append_nil] at hnext
    exact (h.toHeld.setNextSeqId ..).setWriter hnext
  next es _ =>
    refine (((h.toHeld.setNextSeqId ..).keepAll es).setNextSeqId ..).setWriter ?_
    have hnext := hc.admitted hwriter (es.filter fun e => (serde.envelope e).isSome)
    exact (log_keepAll (s := s.setNextSeqId ..) es) ▸ hnext

theorem Kept.ack (h : s.Kept serde) (clientId : ClientId) (streamId : StreamId) (seqId : U64) (segmentId : Option Usize) :
    (s.ack clientId streamId seqId segmentId).Kept serde := by
  obtain ⟨b, hack, hcounted, hbuffered⟩ := BoundedOutboundBuffer.ack_eq h.counted clientId streamId seqId segmentId
  unfold Server.ack
  rw [hack]
  have henqueued : enqueued (s.log ++ [.acked (clientId, streamId) seqId segmentId]) = enqueued s.log := by
    rw [enqueued_append]
    exact List.append_nil _
  refine ⟨⟨fun key => ?_, hcounted, h.noUnderflow, henqueued ▸ h.written⟩, fun c hc => (h.inOrder c hc).acked ..⟩
  rw [unacked_concat_acked, hbuffered, h.buffered]

theorem Kept.recordClientMessageDelivery (h : s.Kept serde) (e : ClientEnvelope)
    (clientMessageKey : Option ((ClientId × Option StreamId) × U64)) :
    (s.recordClientMessageDelivery e clientMessageKey).Kept serde := by
  have hcursors : ({ s with state := s.state.recordCursors e clientMessageKey } : Server Outgoing).Kept serde :=
    ⟨⟨h.buffered, h.counted, h.noUnderflow, h.written⟩, h.inOrder⟩
  unfold Server.recordClientMessageDelivery
  split
  next => exact hcursors.ack ..
  next => exact hcursors

theorem Kept.step (h : s.Kept serde) (a : Action Outgoing) : (Server.step serde s a).Kept serde := by
  have hconnection : ∀ connection : Option (Connection Outgoing), (∀ c ∈ connection, c.InOrder s.log) →
      ({ s with connection } : Server Outgoing).Kept serde :=
    fun _ hc => ⟨⟨h.buffered, h.counted, h.noUnderflow, h.written⟩, hc⟩
  have hqueue : ∀ queue, ({ s with queue } : Server Outgoing).Kept serde :=
    fun _ => ⟨⟨h.buffered, h.counted, h.noUnderflow, h.written⟩, h.inOrder⟩
  unfold Server.step
  split
  next => exact hqueue _
  next => exact hconnection _ fun c hc => Option.mem_some.1 hc ▸ (Connection.inOrder_none rfl).2 ⟨rfl, .inl rfl⟩
  next => exact h
  next => exact hconnection _ fun c hc => by cases hc
  next => exact h
  next order c hc =>
    have hin := h.inOrder c hc
    split
    next hwriter =>
      split
      next horder => exact h.collect horder hin hwriter
      next => exact h
    next => exact h
  next ok c hc =>
    have hin := h.inOrder c hc
    split
    next e left hwriter =>
      split
      next => exact h.toHeld.setWriter (hin.sent hwriter)
      next => exact h.toHeld.setWriter hin.stopped
    next => exact h
  next c hc =>
    have hin := h.inOrder c hc
    split
    next queued queue hwriter _ =>
      split
      next => exact (hqueue queue).toHeld.setWriter (hin.received hwriter queued)
      next => exact h
    next => exact h
  next c hc =>
    have hin := h.inOrder c hc
    split
    next queued hwriter => exact h.record hin hwriter
    next => exact h
  next e clientMessageKey c hc => exact h.recordClientMessageDelivery e clientMessageKey
  next c hc => exact h.toHeld.setWriter (h.inOrder c hc).stopped

/-- **Nothing unacknowledged is lost.** -/
theorem unacked_kept (serde : Serializer Outgoing) (actions : List (Action Outgoing)) :
    let s := run (step serde) {} actions
    (∀ key, s.state.outboundBuffer.buffered key = unacked key s.log) ∧
      s.state.outboundBuffer.used = s.state.outboundBuffer.total ∧ s.underflowed = false ∧
      ∀ c ∈ s.connection, c.InOrder s.log := by
  intro s
  have hstart : ({} : Server Outgoing).Kept serde :=
    ⟨⟨fun _ => rfl, rfl, rfl, fun _ he => absurd he List.not_mem_nil⟩, fun _ hc => by cases hc⟩
  have h : s.Kept serde := run_invariant (fun _ a h => h.step a) hstart actions
  exact ⟨h.buffered, h.counted, h.noUnderflow, h.inOrder⟩

end Server

end Codex.RemoteControl
