/-
Background compression of cold rollouts against an appender
(`rollout/src/compression.rs`, `open_rollout_for_append` of
`rollout/src/recorder.rs`). The two share no lock: the compressor looks at the
plain file's length, modification time and permissions before and after it
writes the compressed sibling and then unlinks the plain name; the appender
materializes the plain file from the sibling when it is missing, opens it and
writes through the handle. A handle keeps its file after the name is gone.

One action is one file-system operation of either side; either may give up at any
point, as it does when an operation fails.
-/
import Codex.Writer

namespace Codex

/-- The `zstd` streams that the code uses. -/
structure Zstd where
  encode : Bytes → Bytes
  decode : Bytes → Option Bytes

/-- A file by its content and metadata; times are in seconds. -/
structure Inode where
  content : Bytes
  modified : Nat
  permissions : Nat

/-- The plain rollout is a name for an inode, its compressed sibling is only read and removed as a whole. -/
structure Disk where
  plain : Option Nat
  compressed : Option Inode
  inodes : Nat → Inode
  fresh : Nat

namespace Disk

def setInode (d : Disk) (i : Nat) (inode : Inode) : Disk :=
  { d with inodes := fun j => if j = i then inode else d.inodes j }

/-- A write to the end of an open file. -/
def append (d : Disk) (i : Nat) (bytes : Bytes) (now : Nat) : Disk :=
  d.setInode i { d.inodes i with content := (d.inodes i).content ++ bytes, modified := now }

/-- `hard_link` from a new file. -/
def linkPlain (d : Disk) (inode : Inode) : Disk :=
  { d.setInode d.fresh inode with plain := some d.fresh, fresh := d.fresh + 1 }

def setCompressed (d : Disk) (compressed : Option Inode) : Disk := { d with compressed }

def unlinkPlain (d : Disk) : Disk := { d with plain := none }

/-- What a reader of the rollout gets: the plain file if it exists, else the decompressed sibling. -/
def logical (zstd : Zstd) (d : Disk) : Bytes :=
  match d.plain with
  | some i => (d.inodes i).content
  | none => (d.compressed.bind fun file => zstd.decode file.content).getD []

end Disk

/-! ## The compressor -/

structure FileState where
  len : Nat
  modified : Nat
  permissions : Nat
  deriving DecidableEq

def FileState.ofInode (inode : Inode) : FileState :=
  { len := inode.content.length, modified := inode.modified, permissions := inode.permissions }

def minRolloutAge : Nat := 7 * 24 * 60 * 60

inductive ColdFileState where
  | cold (state : FileState)
  | notCold (state : Option FileState)

def coldFileState (d : Disk) (now : Nat) : ColdFileState :=
  match d.plain with
  | none => .notCold none
  | some i =>
    let state := FileState.ofInode (d.inodes i)
    if now - state.modified < minRolloutAge then .notCold (some state) else .cold state

def sameFileState (d : Disk) (expected : FileState) : Bool :=
  d.plain.any fun i => FileState.ofInode (d.inodes i) == expected

/-- Where `compress_rollout_if_cold_blocking` stands, before the operation named. -/
inductive CompressorPc where
  | stat
  | existsCompressed (before : FileState)
  | encode (before : FileState)
  | verify (before : FileState) (temp : Bytes)
  | restat (before : FileState) (temp : Bytes)
  | publish (before : FileState) (temp : Bytes)
  | restatAgain (before : FileState)
  | discard
  | unlink

/-- The next operation of `compress_rollout_if_cold_blocking`; when it is done it may be called again. -/
def compressorStep (zstd : Zstd) (d : Disk) (now : Nat) : CompressorPc → Disk × CompressorPc
  | .stat =>
    match coldFileState d now with
    | .cold before => (d, .existsCompressed before)
    | .notCold _ => (d, .stat)
  | .existsCompressed before => (d, if d.compressed.isSome then .stat else .encode before)
  | .encode before =>
    match d.plain with
    | some i => (d, .verify before (zstd.encode (d.inodes i).content))
    | none => (d, .stat)
  | .verify before temp => (d, if (zstd.decode temp).isSome then .restat before temp else .stat)
  | .restat before temp => (d, if sameFileState d before then .publish before temp else .stat)
  | .publish before temp =>
    if d.compressed.isSome then (d, .stat)
    else
      (d.setCompressed (some { content := temp, modified := before.modified, permissions := before.permissions }),
        .restatAgain before)
  | .restatAgain before => (d, if sameFileState d before then .unlink else .discard)
  | .discard => (d.setCompressed none, .stat)
  | .unlink => (d.unlinkPlain, .stat)

/-! ## The appender -/

/-- Where the appender stands: `materialize_rollout_for_append_blocking`, then
`open_rollout_for_append`, then the writes. -/
inductive AppenderPc where
  | existsPlain
  | existsCompressed
  | decompress
  | link (temp : Inode)
  | removeCompressed
  | open
  | terminate (handle : Nat)
  | writing (handle : Nat)

/-- The appender's next operation before its writes; while it writes, it closes the file. -/
def appenderStep (zstd : Zstd) (d : Disk) (now : Nat) : AppenderPc → Disk × AppenderPc
  | .existsPlain => (d, if d.plain.isSome then .open else .existsCompressed)
  | .existsCompressed => (d, if d.compressed.isSome then .decompress else .open)
  | .decompress =>
    match d.compressed.bind fun file => (zstd.decode file.content).map fun content => (file, content) with
    | some (file, content) => (d, .link { content, modified := now, permissions := file.permissions })
    | none => (d, .existsPlain)
  | .link temp => if d.plain.isSome then (d, .removeCompressed) else (d.linkPlain temp, .removeCompressed)
  | .removeCompressed => (d.setCompressed none, .open)
  | .open =>
    match d.plain with
    | some i => (d, .terminate i)
    | none => (d, .existsPlain)
  | .terminate handle =>
    let content := (d.inodes handle).content
    if content = [] ∨ content.getLast? = some newline then (d, .writing handle)
    else (d.append handle [newline] now, .writing handle)
  | .writing _ => (d, .existsPlain)

/-! ## The system -/

structure CompressionSystem where
  disk : Disk
  now : Nat
  compressor : CompressorPc := .stat
  appender : AppenderPc := .existsPlain
  /-- The records whose append completed, in order. -/
  appended : List Bytes := []

inductive CompressionAction where
  | tick (seconds : Nat)
  | compress
  | compressFails
  | append
  | appendFails
  | write (record : Bytes)

namespace CompressionSystem

def step (zstd : Zstd) (s : CompressionSystem) : CompressionAction → CompressionSystem
  | .tick seconds => { s with now := s.now + seconds }
  | .compress =>
    let (disk, compressor) := compressorStep zstd s.disk s.now s.compressor
    { s with disk, compressor }
  | .compressFails => { s with compressor := .stat }
  | .append =>
    let (disk, appender) := appenderStep zstd s.disk s.now s.appender
    { s with disk, appender }
  | .appendFails => { s with appender := .existsPlain }
  | .write record =>
    match s.appender with
    | .writing handle =>
      { s with disk := s.disk.append handle record s.now, appended := s.appended ++ [record] }
    | _ => s

def run (zstd : Zstd) (s : CompressionSystem) (actions : List CompressionAction) : CompressionSystem :=
  actions.foldl (step zstd) s

end CompressionSystem

end Codex
