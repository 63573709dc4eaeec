/-
The app server's side of remote control clients. The reader of a websocket
hands each client envelope to the tracker, which opens a connection for an
`initialize`, forwards messages to it, and closes it when the client says so,
goes quiet, starts again, or the task that carries its output ends.

A handler waits wherever it sends an event to the app server, and may fail or
be dropped there; closes are sent by tasks of their own. So an action is one
handler running to its next wait, or one wait ending.

Source: app-server-transport/src/transport/remote_control/client_tracker.rs,
websocket.rs (run_websocket_reader_inner).
-/
import Codex.Lib.Runs
import Codex.RemoteControl
import Mathlib.Data.List.AList

namespace Codex.RemoteControl

open JsonRpc (JSONRPCMessage)

abbrev ConnectionId := Nat

/-- In milliseconds. -/
def clientIdleTimeout : Nat := 10 * 60 * 1000

structure ClientState where
  connectionId : ConnectionId
  lastActivityAt : Nat
  lastInboundSeqId : Option U64

/-- A task that carries a connection's output. What it returns is the key only. -/
structure OutboundTask where
  clientKey : ClientKey
  connectionId : ConnectionId

structure ClientTracker where
  clients : AList fun _ : ClientKey => ClientState := ∅
  legacyStreamIds : AList fun _ : ClientId => StreamId := ∅
  joinSet : List OutboundTask := []
  nextConnectionId : ConnectionId := 0

/-- An `initialize` on its way: the envelope it came in, and whether that named its stream. -/
structure Initialize where
  clientKey : ClientKey
  message : JSONRPCMessage
  explicit : Bool
  seqId : Option U64

/-- What reaches the app server. The key of an opened connection, and whether the
envelope of a message named its stream and what its number was, are for the record. -/
inductive TransportEvent where
  | connectionOpened (connectionId : ConnectionId) (key : ClientKey)
  | incomingMessage (connectionId : ConnectionId) (message : JSONRPCMessage) (explicit : Bool) (seqId : Option U64)
  | connectionClosed (connectionId : ConnectionId)

/-- What follows a close. -/
inductive AfterClose where
  | closeAll (rest : List ClientKey)
  | reopen (i : Initialize)

/-- Where the handler waits. -/
inductive Stage where
  | idle
  | closing (connectionId : ConnectionId) (next : AfterClose)
  | opening (i : Initialize) (connectionId : ConnectionId)
  | initializing (i : Initialize) (connectionId : ConnectionId)
  | forwarding (key : ClientKey) (connectionId : ConnectionId) (message : JSONRPCMessage) (explicit : Bool) (seqId : Option U64)

/-- The connection a task that finished was spawned for, and the connection closed for it. -/
structure Completion where
  spawnedFor : ConnectionId
  closed : Option ConnectionId
  deriving DecidableEq

/-- `detached` are the closes being sent; `issued` all that ever were. -/
structure Reader where
  tracker : ClientTracker := {}
  stage : Stage := .idle
  detached : List ConnectionId := []
  issued : List ConnectionId := []
  events : List TransportEvent := []
  pongs : List (ClientKey × PongStatus) := []
  completions : List Completion := []

/-! ## The tracker's maps -/

namespace ClientTracker

def setClient (t : ClientTracker) (key : ClientKey) (client : ClientState) : ClientTracker :=
  { t with clients := t.clients.insert key client }

def removeClient (t : ClientTracker) (key : ClientKey) : ClientTracker :=
  { t with
    clients := t.clients.erase key
    legacyStreamIds :=
      if t.legacyStreamIds.lookup key.1 = some key.2 then t.legacyStreamIds.erase key.1 else t.legacyStreamIds }

def recordInboundMessageDelivery (t : ClientTracker) (key : ClientKey) (seqId : Option U64) : ClientTracker :=
  match seqId, t.clients.lookup key with
  | some seqId, some client => t.setClient key { client with lastInboundSeqId := some seqId }
  | _, _ => t

/-- The state of a connection just opened: its task, its client, and the stream chosen for an older client. -/
def insertClient (t : ClientTracker) (i : Initialize) (connectionId : ConnectionId) (now : Nat) : ClientTracker :=
  { t with
    clients := t.clients.insert i.clientKey { connectionId, lastActivityAt := now, lastInboundSeqId := none }
    legacyStreamIds :=
      if i.explicit then t.legacyStreamIds else t.legacyStreamIds.insert i.clientKey.1 i.clientKey.2
    joinSet := t.joinSet ++ [{ clientKey := i.clientKey, connectionId }] }

/-- `remote_control_client_is_alive`, negated. -/
def expired (t : ClientTracker) (now : Nat) (key : ClientKey) : Bool :=
  match t.clients.lookup key with
  | some client => decide (clientIdleTimeout ≤ now - client.lastActivityAt)
  | none => false

end ClientTracker

def remoteControlMessageStartsConnection : JSONRPCMessage → Bool
  | .request r => decide (r.method = "initialize".toList)
  | .notification _ | .response _ | .error _ => false

def ClientEvent.isInitialize : ClientEvent → Bool
  | .clientMessage message => remoteControlMessageStartsConnection message
  | .clientMessageChunk .. | .ack _ | .ping | .clientClosed => false

/-- The stream of an envelope. An older client's `initialize` takes its stream out of the map. -/
def ClientTracker.resolveStream (t : ClientTracker) (e : ClientEnvelope) (random : StreamId) : StreamId × ClientTracker :=
  match e.streamId with
  | some streamId => (streamId, t)
  | none =>
    let legacy := t.legacyStreamIds.lookup e.clientId
    if e.event.isInitialize then
      (legacy.getD random, { t with legacyStreamIds := t.legacyStreamIds.erase e.clientId })
    else
      match e.event with
      | .ping => (legacy.getD random, t)
      | _ => (legacy.getD [], t)

/-! ## Actions -/

inductive ReaderAction where
  | handle (e : ClientEnvelope) (now : Nat) (random : StreamId)
  | forwarded (ok : Bool) (now : Nat)
  | closeSent (connectionId : ConnectionId) (ok : Bool)
  | abort
  | finished (task : Nat) (joined : Bool)
  | sweep (now : Nat) (order : List ClientKey)
  | shutdown (key : ClientKey)

namespace Reader

/-- A client is taken out of the maps and its close handed to a task; the handler waits for that in `stage`. -/
def issueClose (s : Reader) (key : ClientKey) (client : ClientState) (stage : Stage) : Reader :=
  { s with
    tracker := s.tracker.removeClient key
    stage
    detached := s.detached ++ [client.connectionId]
    issued := s.issued ++ [client.connectionId] }

/-- `close_client` for each key, up to the first wait. -/
def closeAll (s : Reader) : List ClientKey → Reader
  | [] => { s with stage := .idle }
  | key :: rest =>
    match s.tracker.clients.lookup key with
    | none => s.closeAll rest
    | some client => s.issueClose key client (.closing client.connectionId (.closeAll rest))

def startOpening (s : Reader) (i : Initialize) : Reader :=
  { s with
    tracker := { s.tracker with nextConnectionId := s.tracker.nextConnectionId + 1 }
    stage := .opening i s.tracker.nextConnectionId }

def resume (s : Reader) : AfterClose → Reader
  | .closeAll rest => s.closeAll rest
  | .reopen i => s.startOpening i

/-- A message with a number not above the last one delivered. -/
def isDuplicate (s : Reader) (key : ClientKey) (seqId : Option U64) : Bool :=
  match seqId, s.tracker.clients.lookup key with
  | some seqId, some client => client.lastInboundSeqId.any fun last => decide (seqId ≤ last)
  | _, _ => false

def handleClientMessage (s : Reader) (key : ClientKey) (message : JSONRPCMessage) (explicit : Bool) (seqId : Option U64)
    (now : Nat) : Reader :=
  let isInitialize := remoteControlMessageStartsConnection message
  if s.isDuplicate key seqId && !isInitialize then s
  else
    let i : Initialize := { clientKey := key, message, explicit, seqId }
    match s.tracker.clients.lookup key, isInitialize with
    | some client, true => s.issueClose key client (.closing client.connectionId (.reopen i))
    | some client, false => { s with
        tracker := s.tracker.setClient key { client with lastActivityAt := now }
        stage := .forwarding key client.connectionId message explicit seqId }
    | none, true => s.startOpening i
    | none, false => s

def handlePing (s : Reader) (key : ClientKey) (now : Nat) : Reader :=
  match s.tracker.clients.lookup key with
  | some client => { s with
      tracker := s.tracker.setClient key { client with lastActivityAt := now }
      pongs := s.pongs ++ [(key, .active)] }
  | none => { s with pongs := s.pongs ++ [(key, .unknown)] }

def handleMessage (s : Reader) (e : ClientEnvelope) (now : Nat) (random : StreamId) : Reader :=
  let (streamId, tracker) := s.tracker.resolveStream e random
  let s := { s with tracker }
  if streamId.isEmpty then s
  else
    let key := (e.clientId, streamId)
    match e.event with
    | .clientMessage message => s.handleClientMessage key message e.streamId.isSome e.seqId now
    | .clientMessageChunk .. | .ack _ => s
    | .ping => s.handlePing key now
    | .clientClosed => s.closeAll [key]

/-- An event has reached the app server, or has not in time. -/
def forwarded (s : Reader) (ok : Bool) (now : Nat) : Reader :=
  match s.stage, ok with
  | .opening i connectionId, true => { s with
      tracker := s.tracker.insertClient i connectionId now
      stage := .initializing i connectionId
      events := s.events ++ [.connectionOpened connectionId i.clientKey] }
  | .initializing i connectionId, true => { s with
      tracker := if i.explicit then s.tracker.recordInboundMessageDelivery i.clientKey i.seqId else s.tracker
      stage := .idle
      events := s.events ++ [.incomingMessage connectionId i.message i.explicit i.seqId] }
  | .initializing i _, false =>
    match s.tracker.clients.lookup i.clientKey with
    | some client => s.issueClose i.clientKey client .idle
    | none => { s with stage := .idle }
  | .forwarding key connectionId message explicit seqId, true => { s with
      tracker := s.tracker.recordInboundMessageDelivery key seqId
      stage := .idle
      events := s.events ++ [.incomingMessage connectionId message explicit seqId] }
  | .opening .., false | .forwarding .., false => { s with stage := .idle }
  | .idle, _ | .closing .., _ => s

/-- A close has been sent, or could not be; the handler that waits for it goes on, or fails. -/
def closeSent (s : Reader) (connectionId : ConnectionId) (ok : Bool) : Reader :=
  if s.detached.contains connectionId then
    let s := { s with
      detached := s.detached.erase connectionId
      events := if ok then s.events ++ [TransportEvent.connectionClosed connectionId] else s.events }
    match s.stage with
    | .closing waited next =>
      if waited = connectionId then if ok then s.resume next else { s with stage := .idle } else s
    | _ => s
  else s

/-- `bookkeep_join_set` and what the reader does with the key it returns. -/
def finished (s : Reader) (task : Nat) (joined : Bool) : Reader :=
  match s.tracker.joinSet[task]? with
  | none => s
  | some t =>
    let s := { s with tracker := { s.tracker with joinSet := s.tracker.joinSet.eraseIdx task } }
    if joined then
      let closed := (s.tracker.clients.lookup t.clientKey).map ClientState.connectionId
      let completion : Completion := { spawnedFor := t.connectionId, closed }
      { s with completions := s.completions ++ [completion] }.closeAll [t.clientKey]
    else s

/-- Handlers start only when no other is waiting. -/
def step (s : Reader) (a : ReaderAction) : Reader :=
  match a, s.stage with
  | .handle e now random, .idle => s.handleMessage e now random
  | .finished task joined, .idle => s.finished task joined
  | .sweep now order, .idle =>
    if order.Perm (s.tracker.clients.keys.filter (s.tracker.expired now)) then s.closeAll order else s
  | .shutdown key, .idle => s.closeAll [key]
  | .handle .., _ | .finished .., _ | .sweep .., _ | .shutdown _, _ => s
  | .forwarded ok now, _ => s.forwarded ok now
  | .closeSent connectionId ok, _ => s.closeSent connectionId ok
  | .abort, _ => { s with stage := .idle }

end Reader

end Codex.RemoteControl
