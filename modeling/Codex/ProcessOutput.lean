/-
The output of one process on an exec server. A task for each output stream, and
one that waits for the exit, number what they have to say under one lock; the
server keeps the last outputs, and a reader asks for them page by page.

Source: exec-server/src/local_process.rs (stream_output, watch_exit,
finish_output_stream, maybe_emit_closed, exec_read).
-/
import Codex.EventRecovery
import Codex.Lib.Runs

namespace Codex.ProcessOutput

open ProcessEvents
open Runs

def retainedOutputBytesPerProcess : Nat := 1024 * 1024
def retainedOutputChunksPerProcess : Nat := 50000

/-- Where a task is: at its stream or waiting for the exit, before its `maybe_emit_closed`, done. -/
inductive TaskPhase where
  | running
  | closing
  | done
  deriving DecidableEq

structure Process extends RunningProcess where
  retainedBytes : Nat := 0
  openStreams : Nat

/-- The process, its tasks, and the reader's `after_seq`. The events numbered so far, the chunks the
reader has been given, and those dropped before it came to them are kept beside. -/
structure World where
  process : Process
  streams : List (ExecOutputStream × TaskPhase)
  exitWatch : TaskPhase := .running
  afterSeq : Option Nat := none
  events : List ExecProcessEvent := []
  received : List ProcessOutputChunk := []
  missed : List ProcessOutputChunk := []

/-- The oldest output goes while there is too much: the bytes and the output kept. -/
def evict : Nat → List ProcessOutputChunk → Nat × List ProcessOutputChunk
  | retainedBytes, [] => (retainedBytes, [])
  | retainedBytes, evicted :: output =>
    if retainedOutputBytesPerProcess < retainedBytes || retainedOutputChunksPerProcess < (evicted :: output).length then
      evict (retainedBytes - evicted.chunk.length) output
    else (retainedBytes, evicted :: output)

namespace World

def publish (w : World) (event : ExecProcessEvent) : World := { w with events := w.events ++ [event] }

def setProcess (w : World) (process : Process) : World := { w with process }

/-- One chunk of `stream_output`. -/
def output (w : World) (stream : ExecOutputStream) (bytes : Bytes) : World :=
  let chunk : ProcessOutputChunk := { seq := w.process.nextSeq, stream, chunk := bytes }
  let output := w.process.output ++ [chunk]
  let kept := evict (w.process.retainedBytes + bytes.length) output
  { (w.publish (.output chunk)).setProcess
      { w.process with nextSeq := w.process.nextSeq + 1, retainedBytes := kept.1, output := kept.2 } with
    missed := w.missed ++
      (output.take (output.length - kept.2.length)).filter fun chunk => decide (w.afterSeq.getD 0 < chunk.seq) }

def exit (w : World) (exitCode : Int) (sandboxDenied : Bool) : World :=
  (w.publish (.exited w.process.nextSeq exitCode (some sandboxDenied))).setProcess
    { w.process with nextSeq := w.process.nextSeq + 1, exitCode := some exitCode, sandboxDenied }

def finishOutputStream (w : World) : World := w.setProcess { w.process with openStreams := w.process.openStreams - 1 }

def maybeEmitClosed (w : World) : World :=
  if w.process.closed || w.process.openStreams != 0 || w.process.exitCode.isNone then w
  else (w.publish (.closed w.process.nextSeq)).setProcess
    { w.process with nextSeq := w.process.nextSeq + 1, closed := true }

def setStream (w : World) (i : Nat) (stream : ExecOutputStream) (phase : TaskPhase) : World :=
  { w with streams := w.streams.set i (stream, phase) }

/-- Whether `exec_read` answers, or waits for more. -/
def readReturns (response : ReadResponse) (afterSeq : Nat) (expired : Bool) : Bool :=
  !response.chunks.isEmpty || response.closed || (response.exited && decide (afterSeq < response.nextSeq - 1)) || expired

/-- One round of `exec_read`, for a reader that goes on after the last page. -/
def execRead (w : World) (maxBytes : Option Nat) (expired : Bool) : World :=
  let response := w.process.toRunningProcess.read w.afterSeq maxBytes
  if readReturns response (w.afterSeq.getD 0) expired then
    { w with received := w.received ++ response.chunks, afterSeq := some (response.nextSeq - 1) }
  else w

end World

inductive Action where
  | output (i : Nat) (bytes : Bytes)
  | endStream (i : Nat)
  | closeStream (i : Nat)
  | exit (exitCode : Int) (sandboxDenied : Bool)
  | closeExit
  | read (maxBytes : Option Nat) (expired : Bool)

def step (w : World) : Action → World
  | .output i bytes =>
    match w.streams[i]? with
    | some (stream, .running) => w.output stream bytes
    | _ => w
  | .endStream i =>
    match w.streams[i]? with
    | some (stream, .running) => w.finishOutputStream.setStream i stream .closing
    | _ => w
  | .closeStream i =>
    match w.streams[i]? with
    | some (stream, .closing) => w.maybeEmitClosed.setStream i stream .done
    | _ => w
  | .exit exitCode sandboxDenied =>
    match w.exitWatch with
    | .running => { w.exit exitCode sandboxDenied with exitWatch := .closing }
    | _ => w
  | .closeExit =>
    match w.exitWatch with
    | .closing => { w.maybeEmitClosed with exitWatch := .done }
    | _ => w
  | .read maxBytes expired => w.execRead maxBytes expired

/-- A process that has just been started, with a task for each of its streams. -/
def start (streams : List ExecOutputStream) : World where
  process := {
    output := []
    nextSeq := 1
    exitCode := none
    closed := false
    sandboxDenied := false
    openStreams := streams.length }
  streams := streams.map fun stream => (stream, .running)

end Codex.ProcessOutput
