/-
Streaming the output of a process (`core/src/unified_exec/async_watcher.rs`).
`process_chunk` takes a chunk of output and cuts prefixes off the pending bytes, each
valid UTF-8 if one of the last places allows it, else a single byte.
-/
import Codex.Lib.PrefixCodes
import Mathlib.Data.List.Forall2
import Mathlib.Data.List.Induction

namespace Codex.UnifiedExec

open PrefixCodes

abbrev Bytes := List UInt8

def unifiedExecOutputDeltaMaxBytes : Nat := 8192

def maxExecOutputDeltasPerCall : Nat := 10000

/-- `std::str::from_utf8(bytes).is_ok()` -/
def fromUtf8 (bytes : Bytes) : Bool := bytes.toByteArray.validateUTF8

/-- The search of `split_valid_utf8_prefix_with_max`, from a split downwards. -/
def validSplit (buffer : Bytes) (maxLen : Nat) : Nat → Option Nat
  | 0 => none
  | split + 1 =>
    if fromUtf8 (buffer.take (split + 1)) then some (split + 1)
    else if 4 < maxLen - (split + 1) then none
    else validSplit buffer maxLen split

/-- The prefix and what is left of the buffer. -/
def splitValidUtf8PrefixWithMax (buffer : Bytes) (maxBytes : Nat) : Option (Bytes × Bytes) :=
  if buffer = [] then none
  else
    let maxLen := min buffer.length maxBytes
    let split := (validSplit buffer maxLen maxLen).getD 1
    some (buffer.take split, buffer.drop split)

def splitValidUtf8Prefix (buffer : Bytes) : Option (Bytes × Bytes) :=
  splitValidUtf8PrefixWithMax buffer unifiedExecOutputDeltaMaxBytes

inductive ExecOutputStream where
  | stdout
  | stderr
  deriving DecidableEq, Repr

structure ExecCommandOutputDeltaEvent where
  callId : String
  stream : ExecOutputStream
  chunk : Bytes
  deriving DecidableEq, Repr

/-- What the task that streams the output keeps, the chunks it has pushed to the
transcript and the events it has sent. -/
structure Watcher where
  pending : Bytes := []
  transcript : List Bytes := []
  emittedDeltas : Nat := 0
  events : List ExecCommandOutputDeltaEvent := []
  deriving DecidableEq, Repr

namespace Watcher

/-- The body of the loop. -/
def emit (w : Watcher) (callId : String) (cut rest : Bytes) : Watcher :=
  let pushed := { w with pending := rest, transcript := w.transcript ++ [cut] }
  if maxExecOutputDeltasPerCall ≤ w.emittedDeltas then pushed
  else
    { pushed with
      emittedDeltas := w.emittedDeltas + 1
      events := w.events ++ [{ callId, stream := .stdout, chunk := cut }] }

@[simp] theorem emit_pending (w : Watcher) (callId : String) (cut rest : Bytes) :
    (w.emit callId cut rest).pending = rest := by
  unfold emit
  split <;> rfl

@[simp] theorem emit_transcript (w : Watcher) (callId : String) (cut rest : Bytes) :
    (w.emit callId cut rest).transcript = w.transcript ++ [cut] := by
  unfold emit
  split <;> rfl

end Watcher

/-! ## The split -/

variable {buffer cut rest : Bytes}

theorem validSplit_bounds {maxLen start split : Nat} (h : validSplit buffer maxLen start = some split) :
    0 < split ∧ split ≤ start ∧ fromUtf8 (buffer.take split) = true := by
  induction start with
  | zero => cases h
  | succ start ih =>
    unfold validSplit at h
    split at h
    next hvalid =>
      cases h
      exact ⟨Nat.succ_pos start, Nat.le_refl _, hvalid⟩
    next =>
      split at h
      · cases h
      · obtain ⟨hpos, hle, hvalid⟩ := ih h
        exact ⟨hpos, Nat.le_succ_of_le hle, hvalid⟩

/-- The search finds a split that is at most five bytes below where it starts. -/
theorem validSplit_isSome {maxLen start cut : Nat} (hpos : 0 < cut) (hle : cut ≤ start)
    (hvalid : fromUtf8 (buffer.take cut) = true) (hnear : maxLen ≤ cut + 5) :
    (validSplit buffer maxLen start).isSome := by
  induction start with
  | zero => omega
  | succ start ih =>
    unfold validSplit
    split
    · rfl
    next hinvalid =>
      have hne : cut ≠ start + 1 := by
        rintro rfl
        exact hinvalid hvalid
      rw [if_neg (by omega)]
      exact ih (by omega)

/-- **One cut** takes at least a byte off the buffer, and no more than the cap. -/
theorem splitValidUtf8Prefix_eq_some (h : splitValidUtf8Prefix buffer = some (cut, rest)) :
    buffer = cut ++ rest ∧ cut ≠ [] ∧ cut.length ≤ unifiedExecOutputDeltaMaxBytes := by
  unfold splitValidUtf8Prefix splitValidUtf8PrefixWithMax at h
  split at h
  · cases h
  next hne =>
    obtain ⟨rfl, rfl⟩ := Prod.mk.inj (Option.some.inj h)
    have hlength := List.length_pos_of_ne_nil hne
    have hcap : 0 < unifiedExecOutputDeltaMaxBytes := by decide
    generalize unifiedExecOutputDeltaMaxBytes = cap at hcap
    obtain ⟨split, hsplit, hpos, hle⟩ : ∃ split, (validSplit buffer (min buffer.length cap) (min buffer.length cap)).getD 1 = split ∧
        0 < split ∧ split ≤ min buffer.length cap := by
      cases hfound : validSplit buffer (min buffer.length cap) (min buffer.length cap) with
      | none => exact ⟨1, rfl, Nat.one_pos, by omega⟩
      | some split =>
        obtain ⟨hpos, hle, -⟩ := validSplit_bounds hfound
        exact ⟨split, rfl, hpos, hle⟩
    rw [hsplit]
    refine ⟨(List.take_append_drop split buffer).symm, ?_, ?_⟩
    · rw [ne_eq, List.take_eq_nil_iff, not_or]
      exact ⟨by omega, hne⟩
    · rw [List.length_take]
      omega

theorem splitValidUtf8Prefix_eq_none : splitValidUtf8Prefix buffer = none ↔ buffer = [] := by
  unfold splitValidUtf8Prefix splitValidUtf8PrefixWithMax
  split
  next h => exact iff_of_true rfl h
  next h => exact iff_of_false (Option.some_ne_none _) h

/-! ## UTF-8 -/

theorem fromUtf8_iff {bytes} : fromUtf8 bytes = true ↔ Coded String.utf8EncodeChar bytes := by
  rw [fromUtf8, ByteArray.validateUTF8_eq_true_iff]
  constructor
  · rintro ⟨letters, h⟩
    exact ⟨letters, List.toByteArray_inj.1 h⟩
  · rintro ⟨letters, rfl⟩
    exact ⟨letters, rfl⟩

theorem splitValidUtf8Prefix_valid (h : splitValidUtf8Prefix buffer = some (cut, rest))
    (hvalid : fromUtf8 buffer = true) : fromUtf8 cut = true ∧ fromUtf8 rest = true := by
  have hwhole := (splitValidUtf8Prefix_eq_some h).1
  suffices hcut : fromUtf8 cut = true by
    refine ⟨hcut, fromUtf8_iff.2 (utf8_prefixCode.coded_of_append (fromUtf8_iff.1 hcut) ?_)⟩
    rw [← hwhole]
    exact fromUtf8_iff.1 hvalid
  unfold splitValidUtf8Prefix splitValidUtf8PrefixWithMax at h
  split at h
  · cases h
  next hne =>
    obtain ⟨rfl, -⟩ := Prod.mk.inj (Option.some.inj h)
    have hlength := List.length_pos_of_ne_nil hne
    have hcap : 4 ≤ unifiedExecOutputDeltaMaxBytes := by decide
    generalize unifiedExecOutputDeltaMaxBytes = cap at hcap
    obtain ⟨place, hpos, hle, hnear, hbefore⟩ : ∃ place, 0 < place ∧ place ≤ min buffer.length cap ∧
        min buffer.length cap ≤ place + 5 ∧ fromUtf8 (buffer.take place) = true := by
      rcases Nat.le_total buffer.length cap with hfits | hlong
      · refine ⟨buffer.length, hlength, by omega, by omega, ?_⟩
        rwa [List.take_length]
      · obtain ⟨place, hle, hnear, hbefore, -⟩ := utf8_prefixCode.exists_cut (fromUtf8_iff.1 hvalid) hlong
        exact ⟨place, by omega, by omega, by omega, fromUtf8_iff.2 hbefore⟩
    obtain ⟨split, hsplit⟩ := Option.isSome_iff_exists.1 (validSplit_isSome hpos hle hbefore hnear)
    rw [hsplit]
    exact (validSplit_bounds hsplit).2.2

/-! ## The loop -/

namespace Watcher

/-- The loop of `process_chunk`. -/
def drain (w : Watcher) (callId : String) : Watcher :=
  match _h : splitValidUtf8Prefix w.pending with
  | none => w
  | some (cut, rest) => (w.emit callId cut rest).drain callId
termination_by w.pending.length
decreasing_by
  obtain ⟨hwhole, hne, -⟩ := splitValidUtf8Prefix_eq_some _h
  have hpos := List.length_pos_of_ne_nil hne
  rw [emit_pending, hwhole, List.length_append]
  omega

def processChunk (w : Watcher) (callId : String) (chunk : Bytes) : Watcher :=
  { w with pending := w.pending ++ chunk }.drain callId

def watch (callId : String) (chunks : List Bytes) : Watcher := chunks.foldl (fun w chunk => w.processChunk callId chunk) {}

/-- Bytes cut into prefixes. -/
structure Cuts (bytes : Bytes) (cuts : List Bytes) : Prop where
  flatten : cuts.flatten = bytes
  ne_nil : ∀ cut ∈ cuts, cut ≠ []
  length_le : ∀ cut ∈ cuts, cut.length ≤ unifiedExecOutputDeltaMaxBytes
  valid : fromUtf8 bytes = true → ∀ cut ∈ cuts, fromUtf8 cut = true

theorem Cuts.nil : Cuts [] [] :=
  ⟨rfl, fun _ h => absurd h List.not_mem_nil, fun _ h => absurd h List.not_mem_nil, fun _ _ h => absurd h List.not_mem_nil⟩

theorem Cuts.cons {cuts : List Bytes} (h : Cuts rest cuts)
    (hcut : splitValidUtf8Prefix buffer = some (cut, rest)) : Cuts buffer (cut :: cuts) := by
  obtain ⟨hwhole, hne, hle⟩ := splitValidUtf8Prefix_eq_some hcut
  refine ⟨?_, List.forall_mem_cons.2 ⟨hne, h.ne_nil⟩, List.forall_mem_cons.2 ⟨hle, h.length_le⟩, fun hvalid => ?_⟩
  · rw [List.flatten_cons, h.flatten, hwhole]
  · obtain ⟨hvalidCut, hvalidRest⟩ := splitValidUtf8Prefix_valid hcut hvalid
    exact List.forall_mem_cons.2 ⟨hvalidCut, h.valid hvalidRest⟩

theorem Cuts.valid_iff {bytes cuts} (h : Cuts bytes cuts) :
    (∀ cut ∈ cuts, fromUtf8 cut = true) ↔ fromUtf8 bytes = true := by
  refine ⟨fun hall => fromUtf8_iff.2 ?_, h.valid⟩
  rw [← h.flatten]
  exact Coded.flatten fun cut hcut => fromUtf8_iff.1 (hall cut hcut)

/-- **The loop ends with nothing pending**, all of it cut off. -/
theorem drain_spec (w : Watcher) (callId : String) :
    (w.drain callId).pending = [] ∧ ∃ cuts, (w.drain callId).transcript = w.transcript ++ cuts ∧ Cuts w.pending cuts := by
  induction w using drain.induct callId with
  | case1 w hnone =>
    have hnil := splitValidUtf8Prefix_eq_none.1 hnone
    unfold drain
    split
    next => exact ⟨hnil, [], (List.append_nil _).symm, by rw [hnil]; exact .nil⟩
    next hsome => exact absurd (hnone.symm.trans hsome) (Option.some_ne_none _).symm
  | case2 w cut rest hsome ih =>
    unfold drain
    split
    next hnone => exact absurd (hsome.symm.trans hnone) (Option.some_ne_none _)
    next cut' rest' hsome' =>
      obtain ⟨rfl, rfl⟩ := Prod.mk.inj (Option.some.inj (hsome.symm.trans hsome'))
      obtain ⟨hpending, cuts, htranscript, hcuts⟩ := ih
      rw [emit_transcript, List.append_assoc] at htranscript
      rw [emit_pending] at hcuts
      exact ⟨hpending, cut :: cuts, htranscript, hcuts.cons hsome⟩

/-- **Output in chunks.** Nothing is pending, and every chunk is cut by itself. -/
theorem watch_spec (callId : String) (chunks : List Bytes) :
    (watch callId chunks).pending = [] ∧
      ∃ parts, (watch callId chunks).transcript = parts.flatten ∧ List.Forall₂ Cuts chunks parts := by
  induction chunks using List.reverseRecOn with
  | nil => exact ⟨rfl, [], rfl, .nil⟩
  | append_singleton chunks chunk ih =>
    obtain ⟨hpending, parts, htranscript, hparts⟩ := ih
    have hstep : watch callId (chunks ++ [chunk]) = (watch callId chunks).processChunk callId chunk := List.foldl_concat ..
    obtain ⟨hdrained, cuts, hcut, hcuts⟩ := drain_spec { watch callId chunks with pending := (watch callId chunks).pending ++ chunk } callId
    rw [hstep]
    refine ⟨hdrained, parts ++ [cuts], ?_, ?_⟩
    · rw [List.flatten_concat, ← htranscript]
      exact hcut
    · rw [hpending, List.nil_append] at hcuts
      exact List.rel_append hparts (.cons hcuts .nil)

theorem cuts_flatten {chunks parts} (h : List.Forall₂ Cuts chunks parts) :
    parts.flatten.flatten = chunks.flatten ∧ (∀ cut ∈ parts.flatten, cut ≠ []) ∧
      (∀ cut ∈ parts.flatten, cut.length ≤ unifiedExecOutputDeltaMaxBytes) ∧
      ((∀ cut ∈ parts.flatten, fromUtf8 cut = true) ↔ ∀ chunk ∈ chunks, fromUtf8 chunk = true) := by
  induction h with
  | nil => simp
  | @cons chunk cuts chunks parts hcuts _ ih =>
    obtain ⟨hwhole, hne, hle, hvalid⟩ := ih
    simp only [List.flatten_cons, List.flatten_append, List.forall_mem_append, List.forall_mem_cons]
    exact ⟨by rw [hcuts.flatten, hwhole], ⟨hcuts.ne_nil, hne⟩, ⟨hcuts.length_le, hle⟩, and_congr hcuts.valid_iff hvalid⟩

/-- The events are the first prefixes. -/
structure Sent (w : Watcher) : Prop where
  chunks : w.events.map ExecCommandOutputDeltaEvent.chunk = w.transcript.take maxExecOutputDeltasPerCall
  emittedDeltas : w.emittedDeltas = w.events.length

theorem Sent.emit {w : Watcher} (h : w.Sent) (callId : String) (cut rest : Bytes) : (w.emit callId cut rest).Sent := by
  have hlength := congrArg List.length h.chunks
  rw [List.length_map, List.length_take, ← h.emittedDeltas] at hlength
  unfold Watcher.emit
  split
  next hfull =>
    refine ⟨?_, h.emittedDeltas⟩
    rw [h.chunks, List.take_append_of_le_length (by omega)]
  next hroom =>
    refine ⟨?_, ?_⟩
    · rw [List.map_append, h.chunks, List.take_of_length_le (by omega), List.take_of_length_le]
      · rfl
      · rw [List.length_append, List.length_singleton]
        omega
    · rw [List.length_append, h.emittedDeltas]
      rfl

theorem Sent.drain {w : Watcher} (h : w.Sent) (callId : String) : (w.drain callId).Sent := by
  induction w using drain.induct callId with
  | case1 w hnone =>
    unfold Watcher.drain
    split
    next => exact h
    next hsome => exact absurd (hnone.symm.trans hsome) (Option.some_ne_none _).symm
  | case2 w cut rest hsome ih =>
    unfold Watcher.drain
    split
    next => exact h
    next cut' rest' hsome' =>
      obtain ⟨rfl, rfl⟩ := Prod.mk.inj (Option.some.inj (hsome.symm.trans hsome'))
      exact ih (h.emit callId cut rest)

theorem sent_watch (callId : String) (chunks : List Bytes) : (watch callId chunks).Sent := by
  induction chunks using List.reverseRecOn with
  | nil => exact ⟨rfl, rfl⟩
  | append_singleton chunks chunk ih =>
    have hstep : watch callId (chunks ++ [chunk]) = (watch callId chunks).processChunk callId chunk := List.foldl_concat ..
    rw [hstep]
    exact Sent.drain (w := { watch callId chunks with pending := (watch callId chunks).pending ++ chunk })
      ⟨ih.chunks, ih.emittedDeltas⟩ callId

end Watcher

/-! ## The output -/

/-- What is to hold of the output of a process: the prefixes are not empty, within
the cap and together with what is pending the output; of valid UTF-8 each that is
pushed or sent is valid. -/
structure CutsOutput (callId : String) (chunks : List Bytes) : Prop where
  ne_nil : ∀ cut ∈ (Watcher.watch callId chunks).transcript, cut ≠ []
  length_le : ∀ cut ∈ (Watcher.watch callId chunks).transcript, cut.length ≤ unifiedExecOutputDeltaMaxBytes
  lossless : (Watcher.watch callId chunks).transcript.flatten ++ (Watcher.watch callId chunks).pending = chunks.flatten
  valid : fromUtf8 chunks.flatten = true →
    (∀ cut ∈ (Watcher.watch callId chunks).transcript, fromUtf8 cut = true) ∧
      ∀ event ∈ (Watcher.watch callId chunks).events, fromUtf8 event.chunk = true

/-- **When prefixes fall on character boundaries.** Exactly when the chunks do. -/
theorem cutsOutput_iff (callId : String) (chunks : List Bytes) :
    CutsOutput callId chunks ↔ (fromUtf8 chunks.flatten = true → ∀ chunk ∈ chunks, fromUtf8 chunk = true) := by
  obtain ⟨hpending, parts, htranscript, hparts⟩ := Watcher.watch_spec callId chunks
  obtain ⟨hwhole, hne, hle, hvalid⟩ := Watcher.cuts_flatten hparts
  rw [← hvalid, ← htranscript]
  constructor
  · intro h hstream
    exact (h.valid hstream).1
  · intro h
    rw [← htranscript] at hwhole hne hle
    refine ⟨hne, hle, by rw [hpending, List.append_nil, hwhole], fun hstream => ⟨h hstream, fun event hevent => ?_⟩⟩
    have hchunk : event.chunk ∈ (Watcher.watch callId chunks).transcript.take maxExecOutputDeltasPerCall := by
      rw [← (Watcher.sent_watch callId chunks).chunks]
      exact List.mem_map_of_mem hevent
    exact h hstream _ (List.mem_of_mem_take hchunk)

/-- The two bytes of a character, each a chunk: the stream is valid, its prefixes are not. -/
theorem not_cutsOutput_split : ¬ CutsOutput "call" [[0xC3], [0xA9]] := by
  intro h
  obtain ⟨-, parts, htranscript, hparts⟩ := Watcher.watch_spec "call" [[0xC3], [0xA9]]
  have hall := (h.valid (by decide)).1
  rw [htranscript] at hall
  exact absurd ((Watcher.cuts_flatten hparts).2.2.2.1 hall [0xC3] (List.mem_cons_self ..)) (by decide)

end Codex.UnifiedExec
