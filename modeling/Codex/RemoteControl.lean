/-
The messages of the remote control protocol. Clients reach the app server
through a backend, over one websocket: an envelope names its client and, but
for older clients, one of the client's streams, and is numbered within the
stream. An envelope that is too long travels in chunks of one number.

Source: app-server-transport/src/transport/remote_control/protocol.rs.
-/
import Codex.JsonRpc
import Codex.Text
import Mathlib.Data.Char
import Mathlib.Data.List.Lex
import Mathlib.Data.Fintype.Basic

namespace Codex.RemoteControl

open JsonRpc (JSONRPCMessage)

abbrev Bytes := List UInt8
abbrev U64 := Fin (2 ^ 64)
abbrev Usize := Fin (2 ^ 64)

/-- Named, so that every literal of these types carries the same proof. -/
instance neZeroWord : NeZero (2 ^ 64) := ⟨by decide⟩

def u64Max : U64 := Fin.last _
def usizeMax : Usize := Fin.last _

def U64.saturatingSucc (n : U64) : U64 := if h : n.val + 1 < 2 ^ 64 then ⟨n.val + 1, h⟩ else n

abbrev ClientId := Text
abbrev StreamId := Text
abbrev ClientKey := ClientId × StreamId

/-! ## From a client -/

inductive ClientEvent where
  | clientMessage (message : JSONRPCMessage)
  | clientMessageChunk (segmentId segmentCount messageSizeBytes : Usize) (messageChunkBase64 : Text)
  | ack (segmentId : Option Usize)
  | ping
  | clientClosed

structure ClientEnvelope where
  event : ClientEvent
  clientId : ClientId
  streamId : Option StreamId
  seqId : Option U64
  cursor : Option Text := none

/-! ## To a client -/

inductive PongStatus where
  | active
  | unknown
  deriving DecidableEq

/-- `Outgoing` is the app server's own message type. -/
inductive ServerEvent (Outgoing : Type) where
  | serverMessage (message : Outgoing)
  | serverMessageChunk (segmentId segmentCount messageSizeBytes : Usize) (messageChunkBase64 : Text)
  | ack
  | pong (status : PongStatus)
  deriving DecidableEq

def ServerEvent.segmentId {Outgoing : Type} : ServerEvent Outgoing → Option Usize
  | .serverMessageChunk segmentId .. => some segmentId
  | .serverMessage .. | .ack | .pong .. => none

structure ServerEnvelope (Outgoing : Type) where
  event : ServerEvent Outgoing
  clientId : ClientId
  seqId : U64
  streamId : StreamId
  deriving DecidableEq

/-- A server event before it is numbered (mod.rs). -/
structure QueuedServerEnvelope (Outgoing : Type) where
  event : ServerEvent Outgoing
  clientId : ClientId
  streamId : StreamId

variable {Outgoing : Type}

def ServerEnvelope.key (e : ServerEnvelope Outgoing) : ClientKey := (e.clientId, e.streamId)

def QueuedServerEnvelope.key (q : QueuedServerEnvelope Outgoing) : ClientKey := (q.clientId, q.streamId)

/-- What `serde_json` writes, when it does. -/
structure Serializer (Outgoing : Type) where
  envelope : ServerEnvelope Outgoing → Option Bytes
  message : Outgoing → Option Bytes

end Codex.RemoteControl
