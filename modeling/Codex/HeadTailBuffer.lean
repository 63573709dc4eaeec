/-
The capped output buffer (`core/src/unified_exec/head_tail_buffer.rs`): a head of
the first bytes, a tail of the last ones, and how many were dropped between them.

What the buffer holds after any chunks is a function of their concatenation
(`pushChunks_ends`), so it does not matter how the output was cut into chunks. The
count of dropped bytes saturates (`saturatingAdd`), as the code's does.
-/
import Codex.Lib.BoundedQueue
import Mathlib.Algebra.Order.Ring.Nat

namespace Codex.HeadTail

open BoundedQueue

abbrev Bytes := List UInt8

def usizeMax : Nat := 2 ^ 64 - 1

def saturatingAdd (a b : Nat) : Nat := min (a + b) usizeMax

structure HeadTailBuffer where
  maxBytes : Nat
  headBudget : Nat
  tailBudget : Nat
  head : Bytes := []
  tail : Bytes := []
  omittedBytes : Nat := 0
  deriving DecidableEq

namespace HeadTailBuffer

/-- `HeadTailBuffer::new` -/
def ofMaxBytes (maxBytes : Nat) : HeadTailBuffer :=
  let headBudget := maxBytes / 2
  { maxBytes, headBudget, tailBudget := maxBytes - headBudget }

variable (b : HeadTailBuffer)

def trimTailToBudget : HeadTailBuffer :=
  let excess := b.tail.length - b.tailBudget
  if 0 < excess then { b with tail := b.tail.drop excess, omittedBytes := saturatingAdd b.omittedBytes excess } else b

def pushToTail (chunk : Bytes) : HeadTailBuffer :=
  if chunk.isEmpty then b
  else if b.tailBudget = 0 then { b with omittedBytes := saturatingAdd b.omittedBytes chunk.length }
  else if b.tailBudget ≤ chunk.length then
    let kept := chunk.drop (chunk.length - b.tailBudget)
    let dropped := chunk.length - kept.length
    { b with
      omittedBytes := saturatingAdd (saturatingAdd b.omittedBytes b.tail.length) dropped
      tail := kept }
  else ({ b with tail := b.tail ++ chunk } : HeadTailBuffer).trimTailToBudget

def pushChunk (chunk : Bytes) : HeadTailBuffer :=
  if chunk.isEmpty then b
  else if b.maxBytes = 0 then { b with omittedBytes := saturatingAdd b.omittedBytes chunk.length }
  else
    let remainingHead := b.headBudget - b.head.length
    let headLen := min remainingHead chunk.length
    let b := if 0 < headLen then { b with head := b.head ++ chunk.take headLen } else b
    b.pushToTail (chunk.drop headLen)

def pushChunks (chunks : List Bytes) : HeadTailBuffer := chunks.foldl pushChunk b

def snapshotChunks : List Bytes :=
  (if b.head.isEmpty then [] else [b.head]) ++ if b.tail.isEmpty then [] else [b.tail]

def toBytes : Bytes := b.head ++ b.tail

def formatOutputOmissionMarker (omittedBytes : Nat) : String := "... " ++ toString omittedBytes ++ " bytes omitted ..."

def toBytesWithOmissionMarker : Bytes :=
  if b.omittedBytes = 0 then b.toBytes
  else b.head ++ [10] ++ (formatOutputOmissionMarker b.omittedBytes).toUTF8.toList ++ [10] ++ b.tail

/-! ## The ends of the output -/

/-- What a buffer of this size holds of an output: its ends, and the count of the rest. -/
def ends (maxBytes : Nat) (output : Bytes) : HeadTailBuffer :=
  let headBudget := maxBytes / 2
  let tailBudget := maxBytes - headBudget
  let head := output.take headBudget
  let tail := (output.drop headBudget).rtake tailBudget
  { maxBytes, headBudget, tailBudget, head, tail,
    omittedBytes := min (output.length - (head.length + tail.length)) usizeMax }

theorem saturatingAdd_min (a b : Nat) : saturatingAdd (min a usizeMax) b = min (a + b) usizeMax := by
  unfold saturatingAdd
  omega

/-- The tail stays the last of what came behind the head. -/
theorem pushToTail_eq {rest} {dropped : Nat} (htail : b.tail = rest.rtake b.tailBudget)
    (homitted : b.omittedBytes = min dropped usizeMax) (hdropped : dropped + b.tail.length = rest.length) (chunk : Bytes) :
    b.pushToTail chunk = { b with
      tail := (rest ++ chunk).rtake b.tailBudget
      omittedBytes := min (rest.length + chunk.length - ((rest ++ chunk).rtake b.tailBudget).length) usizeMax } := by
  obtain ⟨maxBytes, headBudget, tailBudget, head, tail, omittedBytes⟩ := b
  dsimp only at htail homitted hdropped ⊢
  have hkept : (tail ++ chunk).rtake tailBudget = (rest ++ chunk).rtake tailBudget := by
    rw [htail]
    exact rtake_rtake_append tailBudget rest chunk
  have hlength := length_rtake tailBudget (rest ++ chunk)
  have hold := length_rtake tailBudget rest
  rw [List.length_append] at hlength
  rw [← htail] at hold
  unfold pushToTail
  split
  next hempty =>
    rw [List.isEmpty_iff.1 hempty, List.append_nil, ← htail, homitted, List.length_nil, Nat.add_zero, ← hdropped,
      Nat.add_sub_cancel]
  split
  next hbudget =>
    have hnil : (rest ++ chunk).rtake tailBudget = tail := by
      rw [htail, show tailBudget = 0 from hbudget, List.rtake_zero, List.rtake_zero]
    dsimp only
    rw [homitted, saturatingAdd_min, hnil, ← hdropped, Nat.add_right_comm, Nat.add_sub_cancel]
  split
  next hlong =>
    have hchunk : (rest ++ chunk).rtake tailBudget = chunk.drop (chunk.length - tailBudget) := rtake_append_of_le rest hlong
    dsimp only
    rw [homitted, saturatingAdd_min, saturatingAdd_min, hdropped, ← hchunk]
    have hle : ((rest ++ chunk).rtake tailBudget).length ≤ chunk.length := by
      rw [hlength]
      exact (Nat.min_le_left _ _).trans hlong
    rw [Nat.add_sub_assoc hle]
  next hshort =>
    unfold trimTailToBudget
    dsimp only
    split
    next hexcess =>
      have hdrop : (tail ++ chunk).drop ((tail ++ chunk).length - tailBudget) = (rest ++ chunk).rtake tailBudget := hkept
      rw [hdrop, homitted, saturatingAdd_min]
      congr 2
      rw [List.length_append] at hexcess ⊢
      omega
    next hfits =>
      have hall : (rest ++ chunk).rtake tailBudget = tail ++ chunk := by
        rw [← hkept]
        exact rtake_of_length_le (by omega)
      rw [hall, homitted, List.length_append]
      congr 2
      omega

theorem pushChunk_ends (maxBytes : Nat) (output chunk : Bytes) :
    (ends maxBytes output).pushChunk chunk = ends maxBytes (output ++ chunk) := by
  unfold pushChunk
  split
  next hempty => rw [List.isEmpty_iff.1 hempty, List.append_nil]
  split
  next hzero =>
    obtain rfl : maxBytes = 0 := hzero
    simp [ends, saturatingAdd_min]
  next hpos =>
    have hlen : min (maxBytes / 2 - (output.take (maxBytes / 2)).length) chunk.length =
        min (maxBytes / 2 - output.length) chunk.length := by
      rw [List.length_take]
      omega
    have htake : chunk.take (min (maxBytes / 2 - output.length) chunk.length) = chunk.take (maxBytes / 2 - output.length) :=
      List.take_eq_take_iff.2 (by omega)
    have hdrop : chunk.drop (min (maxBytes / 2 - output.length) chunk.length) = chunk.drop (maxBytes / 2 - output.length) := by
      rcases Nat.le_total (maxBytes / 2 - output.length) chunk.length with hle | hle
      · rw [Nat.min_eq_left hle]
      · rw [Nat.min_eq_right hle, List.drop_length, List.drop_eq_nil_of_le hle]
    have hhead : output.take (maxBytes / 2) ++ chunk.take (maxBytes / 2 - output.length) =
        (output ++ chunk).take (maxBytes / 2) := List.take_append.symm
    have hrest : output.drop (maxBytes / 2) ++ chunk.drop (maxBytes / 2 - output.length) =
        (output ++ chunk).drop (maxBytes / 2) := List.drop_append.symm
    have hfilled : (if 0 < min (maxBytes / 2 - output.length) chunk.length then
        { ends maxBytes output with head := output.take (maxBytes / 2) ++ chunk.take (maxBytes / 2 - output.length) }
        else ends maxBytes output) =
        { ends maxBytes output with head := (output ++ chunk).take (maxBytes / 2) } := by
      rw [hhead]
      split
      · rfl
      next hnone =>
        have hsame : (output ++ chunk).take (maxBytes / 2) = output.take (maxBytes / 2) := by
          rw [← hhead, ← htake, Nat.eq_zero_of_not_pos hnone, List.take_zero, List.append_nil]
        rw [hsame]
        rfl
    dsimp only [ends] at hfilled ⊢
    rw [hlen, htake, hdrop, hfilled]
    have hkept := length_rtake (maxBytes - maxBytes / 2) (output.drop (maxBytes / 2))
    rw [pushToTail_eq _ rfl rfl (by simp only [List.length_take, List.length_drop] at hkept ⊢; omega), hrest]
    congr 2
    have hall := congrArg List.length hrest
    have hkept' := length_rtake (maxBytes - maxBytes / 2) ((output ++ chunk).drop (maxBytes / 2))
    simp only [List.length_append, List.length_take, List.length_drop] at hall hkept' ⊢
    omega

/-- **The ends of the stream.** The head is what comes first, the tail the last of what follows it, and what is not
kept is counted. -/
theorem pushChunks_ends (maxBytes : Nat) (chunks : List Bytes) :
    (ofMaxBytes maxBytes).pushChunks chunks = ends maxBytes chunks.flatten := by
  induction chunks using List.reverseRecOn with
  | nil =>
    unfold ends
    simp [pushChunks, ofMaxBytes]
  | append_singleton chunks chunk ih =>
    rw [pushChunks, List.foldl_concat, ← pushChunks, ih, pushChunk_ends, List.flatten_concat]

theorem keeps_ends (maxBytes : Nat) (chunks : List Bytes) :
    let output := chunks.flatten
    let rest := output.drop (maxBytes / 2)
    let b := (ofMaxBytes maxBytes).pushChunks chunks
    b.head = output.take (min output.length (maxBytes / 2)) ∧
      b.tail = rest.rtake (min rest.length (maxBytes - maxBytes / 2)) ∧
      b.omittedBytes = min (output.length - (b.head.length + b.tail.length)) usizeMax ∧
      ∀ chunks', chunks'.flatten = output → (ofMaxBytes maxBytes).pushChunks chunks' = b := by
  dsimp only
  rw [pushChunks_ends]
  refine ⟨List.take_eq_take_iff.2 (by omega), ?_, rfl, fun chunks' h => by rw [pushChunks_ends, h]⟩
  dsimp only [ends]
  unfold List.rtake
  congr 1
  omega

/-- Output of 2^64 bytes, none of them kept. -/
def endlessChunks : List Bytes :=
  [List.replicate (2 ^ 63 - 1) 0, List.replicate (2 ^ 63 - 1) 0, List.replicate 2 0]

theorem omittedBytes_saturates :
    ¬ ∀ maxBytes chunks, ((ofMaxBytes maxBytes).pushChunks chunks).omittedBytes = chunks.flatten.length -
      (((ofMaxBytes maxBytes).pushChunks chunks).head.length + ((ofMaxBytes maxBytes).pushChunks chunks).tail.length) := by
  intro h
  have hcount := h 0 endlessChunks
  have hlength : endlessChunks.flatten.length = 2 ^ 64 := by
    rw [endlessChunks, List.flatten_cons, List.flatten_cons, List.flatten_cons, List.flatten_nil, List.length_append,
      List.length_append, List.length_append, List.length_replicate, List.length_replicate, List.length_nil]
    decide
  rw [pushChunks_ends, ends, hlength] at hcount
  simp [List.rtake, hlength, usizeMax] at hcount

/-! ## Collecting what is drained -/

/-- What is drained, and the buffer that is left. -/
def drain : HeadTailBuffer × HeadTailBuffer := (b, { b with head := [], tail := [], omittedBytes := 0 })

def pushBuffer (buffer : HeadTailBuffer) : HeadTailBuffer :=
  let b := (b.pushChunk buffer.head).pushChunk buffer.tail
  { b with omittedBytes := saturatingAdd b.omittedBytes buffer.omittedBytes }

/-- Output comes to the process's buffer, or `collect_output_until_deadline` drains this into the one it collects in. -/
def collectStep (s : HeadTailBuffer × HeadTailBuffer) : Option Bytes → HeadTailBuffer × HeadTailBuffer
  | some chunk => (s.1.pushChunk chunk, s.2)
  | none => (s.1.drain.2, s.2.pushBuffer s.1.drain.1)

/-- A tail as long as its budget is all that is left of what comes before it. -/
theorem rtake_drop_append {front tail : Bytes} {n k : Nat} (hfront : n ≤ front.length) (htail : tail.length = k) :
    ((front ++ tail).drop n).rtake k = tail := by
  rw [List.drop_append_of_le_length hfront, rtake_append_of_le _ htail.ge, rtake_of_length_le htail.le]

/-- A head cut at the budget still fills another head. -/
theorem take_append_take {more : Bytes} {n : Nat} (hmore : n ≤ more.length) (output rest : Bytes) :
    (output ++ (more.take n ++ rest)).take n = (output ++ more).take n := by
  have hsplit (l : Bytes) : (output ++ l).take n = output.take n ++ l.take (n - output.length) := List.take_append
  rw [hsplit, hsplit, List.take_append_of_le_length (by rw [List.length_take]; omega), List.take_take,
    Nat.min_eq_left (Nat.sub_le _ _)]

theorem pushBuffer_ends (maxBytes : Nat) (output more : Bytes) :
    (ends maxBytes output).pushBuffer (ends maxBytes more) = ends maxBytes (output ++ more) := by
  rw [pushBuffer, pushChunk_ends, pushChunk_ends]
  have hkept := length_rtake (maxBytes - maxBytes / 2) (more.drop (maxBytes / 2))
  have hcut := List.take_append_drop (more.length - (maxBytes - maxBytes / 2)) more
  rcases Nat.lt_or_ge maxBytes more.length with hlong | hfits
  · have htail : (more.drop (maxBytes / 2)).rtake (maxBytes - maxBytes / 2) =
        more.drop (more.length - (maxBytes - maxBytes / 2)) := by
      conv_lhs => rw [← hcut]
      exact rtake_drop_append (by rw [List.length_take]; omega) (by rw [List.length_drop]; omega)
    have hhead : (output ++ (ends maxBytes more).head ++ (ends maxBytes more).tail).take (maxBytes / 2) =
        (output ++ more).take (maxBytes / 2) := by
      rw [List.append_assoc]
      exact take_append_take (by omega) output _
    have hlast : ((output ++ (ends maxBytes more).head ++ (ends maxBytes more).tail).drop (maxBytes / 2)).rtake
        (maxBytes - maxBytes / 2) = ((output ++ more).drop (maxBytes / 2)).rtake (maxBytes - maxBytes / 2) := by
      dsimp only [ends]
      rw [htail]
      conv_rhs => rw [← hcut, ← List.append_assoc]
      rw [rtake_drop_append (by rw [List.length_append, List.length_take]; omega) (by rw [List.length_drop]; omega),
        rtake_drop_append (by rw [List.length_append, List.length_take]; omega) (by rw [List.length_drop]; omega)]
    have hall := length_rtake (maxBytes - maxBytes / 2) ((output ++ more).drop (maxBytes / 2))
    unfold ends at hhead hlast ⊢
    dsimp only at hhead hlast ⊢
    rw [hhead, hlast]
    congr 1
    simp only [List.length_append, List.length_take, List.length_drop, saturatingAdd] at hkept hall ⊢
    omega
  · have hall : (ends maxBytes more).head ++ (ends maxBytes more).tail = more := by
      dsimp only [ends]
      rw [rtake_of_length_le (by rw [List.length_drop]; omega), List.take_append_drop]
    have hnone : (ends maxBytes more).omittedBytes = 0 := by
      simp only [ends, List.length_take, List.length_drop] at hkept ⊢
      omega
    rw [List.append_assoc, hall, hnone]
    simp [ends, saturatingAdd]

theorem toBytesWithOmissionMarker_ends (maxBytes : Nat) (output : Bytes) :
    (ends maxBytes output).toBytesWithOmissionMarker =
      if output.length ≤ maxBytes then output
      else output.take (maxBytes / 2) ++ [10] ++
        (formatOutputOmissionMarker (min (output.length - maxBytes) usizeMax)).toUTF8.toList ++ [10] ++
        output.rtake (maxBytes - maxBytes / 2) := by
  have hkept := length_rtake (maxBytes - maxBytes / 2) (output.drop (maxBytes / 2))
  have homitted : (ends maxBytes output).omittedBytes = min (output.length - maxBytes) usizeMax := by
    simp only [ends, List.length_take, List.length_drop] at hkept ⊢
    omega
  rw [toBytesWithOmissionMarker, homitted]
  by_cases hfits : output.length ≤ maxBytes
  · rw [if_pos hfits, if_pos (by rw [Nat.sub_eq_zero_of_le hfits]; rfl), toBytes]
    dsimp only [ends]
    rw [rtake_of_length_le (by rw [List.length_drop]; omega), List.take_append_drop]
  · have hmax : 0 < usizeMax := by decide
    have hlast : (output.drop (maxBytes / 2)).rtake (maxBytes - maxBytes / 2) = output.rtake (maxBytes - maxBytes / 2) := by
      conv_rhs => rw [← List.take_append_drop (maxBytes / 2) output]
      exact (rtake_append_of_le _ (by rw [List.length_drop]; omega)).symm
    rw [if_neg hfits, if_neg (by omega)]
    dsimp only [ends]
    rw [hlast]

/-- **However often the output is drained while it comes, what is collected in the end is what one buffer holds of
all of it**, and it is shown so. -/
theorem collected_output (maxBytes : Nat) (events : List (Option Bytes)) :
    let collected := ((events ++ [none]).foldl collectStep (ofMaxBytes maxBytes, ofMaxBytes maxBytes)).2
    let output := (events.filterMap id).flatten
    collected = (ofMaxBytes maxBytes).pushChunks (events.filterMap id) ∧
      collected.toBytesWithOmissionMarker =
        if output.length ≤ maxBytes then output
        else output.take (maxBytes / 2) ++ [10] ++
          (formatOutputOmissionMarker (min (output.length - maxBytes) usizeMax)).toUTF8.toList ++ [10] ++
          output.rtake (maxBytes - maxBytes / 2) := by
  have hnew : ofMaxBytes maxBytes = ends maxBytes [] := pushChunks_ends maxBytes []
  have hrun : ∃ drained left, events.foldl collectStep (ofMaxBytes maxBytes, ofMaxBytes maxBytes) =
      (ends maxBytes left, ends maxBytes drained) ∧ drained ++ left = (events.filterMap id).flatten := by
    induction events using List.reverseRecOn with
    | nil => exact ⟨[], [], by rw [hnew]; rfl, rfl⟩
    | append_singleton events event ih =>
      obtain ⟨drained, left, hstate, houtput⟩ := ih
      rw [List.foldl_concat, hstate, List.filterMap_append, List.flatten_append, ← houtput]
      cases event with
      | some chunk => exact ⟨drained, left ++ chunk, by rw [collectStep, pushChunk_ends], by simp⟩
      | none =>
        refine ⟨drained ++ left, [], ?_, by simp⟩
        rw [collectStep, drain, pushBuffer_ends, ← hnew]
        rfl
  obtain ⟨drained, left, hstate, houtput⟩ := hrun
  dsimp only
  rw [List.foldl_concat, hstate, pushChunks_ends, ← houtput, ← toBytesWithOmissionMarker_ends, collectStep, drain,
    pushBuffer_ends]
  exact ⟨rfl, rfl⟩

end HeadTailBuffer

end Codex.HeadTail
