/-
Whether compression loses what is appended. A write that the compressor can
still see changes the file's modification time past the one it remembers, so
the sibling it leaves behind holds what the plain file held (`step_inv`). A
write after its last look does not.
-/
import Codex.Compression

namespace Codex

variable {zstd : Zstd}

/-! ## What the rollout holds -/

/-- The records one after another, with newlines where the appender ended a torn line. -/
inductive Appended : List Bytes → Bytes → Prop
  | nil : Appended [] []
  | newline {records : List Bytes} {tail : Bytes} : Appended records tail → Appended records (tail ++ [newline])
  | record {records : List Bytes} {tail : Bytes} (record : Bytes) :
      Appended records tail → Appended (records ++ [record]) (tail ++ record)

/-- A content with the records after the bytes that were there before. -/
def HoldsAppends (before : Bytes) (records : List Bytes) (content : Bytes) : Prop :=
  ∃ tail, content = before ++ tail ∧ Appended records tail

variable {before content : Bytes} {records : List Bytes} {d : Disk} {appended : List Bytes}
  {pc : CompressorPc} {s : CompressionSystem}

theorem HoldsAppends.congr {content'}
    (h : HoldsAppends before records content) (heq : content' = content) : HoldsAppends before records content' :=
  heq ▸ h

theorem HoldsAppends.newline (h : HoldsAppends before records content) :
    HoldsAppends before records (content ++ [newline]) := by
  obtain ⟨tail, rfl, ht⟩ := h
  exact ⟨_, List.append_assoc .., ht.newline⟩

theorem HoldsAppends.record (h : HoldsAppends before records content)
    (record : Bytes) : HoldsAppends before (records ++ [record]) (content ++ record) := by
  obtain ⟨tail, rfl, ht⟩ := h
  exact ⟨_, List.append_assoc .., ht.record record⟩

theorem Appended.length_le {tail} (h : Appended records tail) : records.flatten.length ≤ tail.length := by
  induction h with
  | nil => exact Nat.le_refl _
  | newline _ ih =>
    rw [List.length_append]
    omega
  | record _ _ ih =>
    simpa using ih

namespace Disk

@[simp] theorem append_plain (d : Disk) (i : Nat) (bytes : Bytes) (now : Nat) : (d.append i bytes now).plain = d.plain := rfl

@[simp] theorem append_compressed (d : Disk) (i : Nat) (bytes : Bytes) (now : Nat) :
    (d.append i bytes now).compressed = d.compressed := rfl

theorem append_inode (d : Disk) (i j : Nat) (bytes : Bytes) (now : Nat) :
    (d.append i bytes now).inodes j =
      if j = i then { d.inodes i with content := (d.inodes i).content ++ bytes, modified := now } else d.inodes j := rfl

theorem logical_of_plain {i : Nat} (h : d.plain = some i) : d.logical zstd = (d.inodes i).content := by
  simp [logical, h]

theorem setCompressed_logical {i : Nat} (h : d.plain = some i) (compressed : Option Inode) :
    (d.setCompressed compressed).logical zstd = d.logical zstd := by
  simp [logical, setCompressed, h]

/-- A write changes the rollout when its file is the one that the plain name stands for. -/
theorem append_logical (d : Disk) (i : Nat) (bytes : Bytes) (now : Nat) :
    (d.append i bytes now).logical zstd =
      if d.plain = some i then d.logical zstd ++ bytes else d.logical zstd := by
  cases hp : d.plain with
  | none => simp [logical, hp]
  | some j =>
    by_cases hj : j = i
    · simp [logical, hp, append_inode, hj]
    · simp [logical, hp, append_inode, hj]

end Disk

/-! ## The invariant -/

/-- A file that was written after a compressor with the state `before` looked at it has a later modification time. -/
def SeenSince (before : FileState) (now : Nat) (d : Disk) (unchanged : Inode → Prop) : Prop :=
  ∃ i seen, d.plain = some i ∧ before.modified < seen ∧ seen ≤ now ∧
    (seen ≤ (d.inodes i).modified ∨ unchanged (d.inodes i))

/-- What the compressor knows where it stands. -/
def CompressorInv (zstd : Zstd) (before : Bytes) (appended : List Bytes) (now : Nat) (d : Disk) : CompressorPc → Prop
  | .stat => True
  | .existsCompressed seen | .encode seen => SeenSince seen now d fun _ => True
  | .verify seen temp | .restat seen temp | .publish seen temp =>
    SeenSince seen now d fun inode => zstd.decode temp = some inode.content
  | .restatAgain seen => ∃ file, d.compressed = some file ∧
      SeenSince seen now d fun inode => zstd.decode file.content = some inode.content
  | .discard => d.plain.isSome = true
  | .unlink => d.plain.isSome = true ∧ ∃ file content, d.compressed = some file ∧
      zstd.decode file.content = some content ∧ HoldsAppends before appended content

/-- The compressor has not found the sibling missing. -/
def CompressorPc.isEarly : CompressorPc → Bool
  | .stat | .existsCompressed _ => true
  | _ => false

/-- What the appender knows where it stands. -/
def AppenderInv (zstd : Zstd) (d : Disk) (compressor : CompressorPc) : AppenderPc → Prop
  | .existsCompressed | .decompress => d.plain = none
  | .link temp => d.plain = none ∧ ∃ file, d.compressed = some file ∧ zstd.decode file.content = some temp.content
  | .removeCompressed => d.plain.isSome = true ∧ d.compressed.isSome = true ∧ compressor.isEarly = true
  | .existsPlain | .open | .terminate _ | .writing _ => True

structure CompressionInv (zstd : Zstd) (before : Bytes) (s : CompressionSystem) : Prop where
  holds : HoldsAppends before s.appended (s.disk.logical zstd)
  compressor : CompressorInv zstd before s.appended s.now s.disk s.compressor
  appender : AppenderInv zstd s.disk s.compressor s.appender

/-- While the plain name is gone the compressor has nothing to do. -/
theorem compressor_of_plain_none {now : Nat}
    (h : CompressorInv zstd before appended now d pc) (hp : d.plain = none) : pc = .stat := by
  cases pc with
  | stat => rfl
  | existsCompressed | encode | verify | restat | publish =>
    obtain ⟨i, _, hi, -⟩ := h
    rw [hp] at hi; cases hi
  | restatAgain =>
    obtain ⟨_, -, i, _, hi, -⟩ := h
    rw [hp] at hi; cases hi
  | discard => rw [CompressorInv, hp] at h; cases h
  | unlink => rw [CompressorInv, hp] at h; cases h.1

/-- A file that the compressor finds as it was has not been written. -/
theorem SeenSince.unchanged {seen} {now : Nat} {d : Disk} {unchanged : Inode → Prop}
    (h : SeenSince seen now d unchanged) (hsame : sameFileState d seen = true) :
    ∃ i, d.plain = some i ∧ unchanged (d.inodes i) := by
  obtain ⟨i, t, hi, hlt, -, hlate | hu⟩ := h
  · simp only [sameFileState, hi, Option.any_some, beq_iff_eq] at hsame
    have hm : (d.inodes i).modified = seen.modified := congrArg FileState.modified hsame
    omega
  · exact ⟨i, hi, hu⟩

theorem SeenSince.mono {seen} {now now' : Nat} {unchanged : Inode → Prop}
    (h : SeenSince seen now d unchanged) (hle : now ≤ now') : SeenSince seen now' d unchanged := by
  obtain ⟨i, t, hi, hlt, hn, hor⟩ := h
  exact ⟨i, t, hi, hlt, Nat.le_trans hn hle, hor⟩

/-- A write leaves a file unchanged or with a later modification time. -/
theorem SeenSince.append {seen} {now : Nat} {unchanged : Inode → Prop}
    (h : SeenSince seen now d unchanged) (j : Nat) (bytes : Bytes) :
    SeenSince seen now (d.append j bytes now) unchanged := by
  obtain ⟨i, t, hi, hlt, hn, hor⟩ := h
  refine ⟨i, t, hi, hlt, hn, ?_⟩
  rw [Disk.append_inode]
  by_cases hij : i = j
  · rw [if_pos hij]
    exact .inl hn
  · rw [if_neg hij]
    exact hor

/-- A newline at the end of a torn line, or a record outside the compressor's
last window, keeps what the compressor knows. -/
theorem CompressorInv.append {appended'} {now : Nat}
    (h : CompressorInv zstd before appended now d pc) (handle : Nat) (bytes : Bytes)
    (hunlink : pc = .unlink → appended' = appended) :
    CompressorInv zstd before appended' now (d.append handle bytes now) pc := by
  cases pc with
  | stat => trivial
  | existsCompressed | encode | verify | restat | publish =>
    simp only [CompressorInv] at h ⊢
    exact h.append handle bytes
  | restatAgain =>
    obtain ⟨file, hf, hs⟩ := h
    exact ⟨file, hf, hs.append handle bytes⟩
  | discard => exact h
  | unlink =>
    rw [hunlink rfl]
    exact h

theorem CompressorInv.tick {now now' : Nat}
    (h : CompressorInv zstd before appended now d pc) (hle : now ≤ now') :
    CompressorInv zstd before appended now' d pc := by
  cases pc with
  | stat => trivial
  | existsCompressed | encode | verify | restat | publish =>
    simp only [CompressorInv] at h ⊢
    exact h.mono hle
  | restatAgain =>
    obtain ⟨file, hf, hs⟩ := h
    exact ⟨file, hf, hs.mono hle⟩
  | discard => exact h
  | unlink => exact h

theorem AppenderInv.early {pc' appender}
    (h : AppenderInv zstd d pc appender) (hpc : pc.isEarly = true → pc'.isEarly = true) :
    AppenderInv zstd d pc' appender := by
  cases appender with
  | removeCompressed => exact ⟨h.1, h.2.1, hpc h.2.2⟩
  | _ => exact h

theorem AppenderInv.append {appender} (h : AppenderInv zstd d pc appender)
    (handle : Nat) (bytes : Bytes) (now : Nat) : AppenderInv zstd (d.append handle bytes now) pc appender := by
  cases appender <;> exact h

/-- Past its first checks, the compressor finds the appender outside `materialize_rollout_for_append`. -/
theorem AppenderInv.of_late (h : CompressionInv zstd before s)
    (hlate : s.compressor.isEarly = false) (d : Disk) (pc : CompressorPc) :
    AppenderInv zstd d pc s.appender := by
  have hplain : s.disk.plain ≠ none := by
    intro hp
    rw [compressor_of_plain_none h.compressor hp] at hlate
    cases hlate
  have ha := h.appender
  cases happ : s.appender with
  | existsCompressed | decompress => rw [happ] at ha; exact absurd ha hplain
  | link => rw [happ] at ha; exact absurd ha.1 hplain
  | removeCompressed =>
    rw [happ] at ha
    rw [ha.2.2] at hlate
    cases hlate
  | _ => trivial

theorem compress_inv (hzstd : ∀ content, zstd.decode (zstd.encode content) = some content) {before s} (h : CompressionInv zstd before s) : CompressionInv zstd before (s.step zstd .compress) := by
  have hc := h.compressor
  have ha := h.appender
  have hlate (hl : s.compressor.isEarly = false) (d : Disk) (pc : CompressorPc) := AppenderInv.of_late h hl d pc
  obtain ⟨disk, now, compressor, appender, appended⟩ := s
  simp only at hc ha hlate
  cases compressor with
  | stat =>
    simp only [CompressionSystem.step, compressorStep]
    cases hcold : coldFileState disk now with
    | notCold => exact ⟨h.holds, trivial, ha⟩
    | cold seen =>
      refine ⟨h.holds, ?_, ha.early fun _ => rfl⟩
      -- A cold file was modified before now.
      simp only [coldFileState] at hcold
      split at hcold
      · cases hcold
      · next i hi =>
        split at hcold
        · cases hcold
        · next hage =>
          cases hcold
          have hmin : 0 < minRolloutAge := by decide
          exact ⟨i, now, hi, by omega, Nat.le_refl _, .inr trivial⟩
  | existsCompressed seen =>
    simp only [CompressionSystem.step, compressorStep]
    split
    · exact ⟨h.holds, trivial, ha.early fun _ => rfl⟩
    · next hnone =>
      refine ⟨h.holds, hc, ?_⟩
      cases appender with
      | removeCompressed => exact absurd ha.2.1 hnone
      | _ => exact ha
  | encode seen =>
    simp only [CompressionSystem.step, compressorStep]
    have hc' := hc
    obtain ⟨i, t, hi, hlt, hn, -⟩ := hc'
    rw [hi]
    exact ⟨h.holds, ⟨i, t, hi, hlt, hn, .inr (hzstd _)⟩, hlate rfl _ _⟩
  | verify seen temp =>
    simp only [CompressionSystem.step, compressorStep]
    split
    · exact ⟨h.holds, hc, hlate rfl _ _⟩
    · exact ⟨h.holds, trivial, hlate rfl _ _⟩
  | restat seen temp =>
    simp only [CompressionSystem.step, compressorStep]
    split
    · exact ⟨h.holds, hc, hlate rfl _ _⟩
    · exact ⟨h.holds, trivial, hlate rfl _ _⟩
  | publish seen temp =>
    simp only [CompressionSystem.step, compressorStep]
    split
    · exact ⟨h.holds, trivial, hlate rfl _ _⟩
    · obtain ⟨i, t, hi, hrest⟩ := hc
      exact ⟨h.holds.congr (Disk.setCompressed_logical hi _), ⟨_, rfl, i, t, hi, hrest⟩, hlate rfl _ _⟩
  | restatAgain seen =>
    simp only [CompressionSystem.step, compressorStep]
    obtain ⟨file, hf, hs⟩ := hc
    split
    · next hsame =>
      obtain ⟨i, hi, hu⟩ := hs.unchanged hsame
      have hcontent := h.holds.congr (Disk.logical_of_plain hi).symm
      exact ⟨h.holds, ⟨by simp [hi], file, _, hf, hu, hcontent⟩, hlate rfl _ _⟩
    · obtain ⟨i, _, hi, -⟩ := hs
      exact ⟨h.holds, by simp [CompressorInv, hi], hlate rfl _ _⟩
  | discard =>
    obtain ⟨i, hi⟩ := Option.isSome_iff_exists.1 hc
    exact ⟨h.holds.congr (Disk.setCompressed_logical hi _), trivial, hlate rfl _ _⟩
  | unlink =>
    simp only [CompressionSystem.step, compressorStep]
    obtain ⟨-, file, content, hf, hd, hcontent⟩ := hc
    refine ⟨?_, trivial, hlate rfl _ _⟩
    simpa [Disk.logical, Disk.unlinkPlain, hf, hd] using hcontent

/-- One operation of the appender before its writes. -/
theorem append_inv (h : CompressionInv zstd before s) :
    CompressionInv zstd before (s.step zstd .append) := by
  have hc := h.compressor
  have ha := h.appender
  obtain ⟨disk, now, compressor, appender, appended⟩ := s
  simp only at hc ha
  cases appender with
  | existsPlain =>
    simp only [CompressionSystem.step, appenderStep]
    split
    · exact ⟨h.holds, hc, trivial⟩
    · next hp => exact ⟨h.holds, hc, show disk.plain = none by simpa using hp⟩
  | existsCompressed =>
    simp only [CompressionSystem.step, appenderStep]
    split
    · exact ⟨h.holds, hc, ha⟩
    · exact ⟨h.holds, hc, trivial⟩
  | decompress =>
    simp only [CompressionSystem.step, appenderStep]
    split
    · next file content hf =>
      simp only [Option.bind_eq_some_iff, Option.map_eq_some_iff, Prod.mk.injEq] at hf
      obtain ⟨file', hcomp, content', hdec, rfl, rfl⟩ := hf
      exact ⟨h.holds, hc, ha, file', hcomp, hdec⟩
    · exact ⟨h.holds, hc, trivial⟩
  | link temp =>
    obtain ⟨hp, file, hcomp, hdec⟩ := ha
    have hlogical : disk.logical zstd = temp.content := by simp [Disk.logical, hp, hcomp, hdec]
    have hstat := compressor_of_plain_none hc hp
    simp only [CompressionSystem.step, appenderStep, hp, Option.isSome_none, Bool.false_eq_true, if_false]
    refine ⟨?_, ?_, rfl, by simp [Disk.linkPlain, Disk.setInode, hcomp], ?_⟩
    · have hnew : (disk.linkPlain temp).inodes disk.fresh = temp := if_pos rfl
      refine h.holds.congr (Eq.trans (Disk.logical_of_plain (i := disk.fresh) rfl) ?_)
      rw [hnew, hlogical]
    · rw [hstat]
      trivial
    · rw [hstat]
      rfl
  | removeCompressed =>
    obtain ⟨hp, -, hearly⟩ := ha
    obtain ⟨i, hi⟩ := Option.isSome_iff_exists.1 hp
    refine ⟨h.holds.congr (Disk.setCompressed_logical hi _), ?_, trivial⟩
    cases compressor with
    | stat => trivial
    | existsCompressed => exact hc
    | _ => cases hearly
  | «open» =>
    simp only [CompressionSystem.step, appenderStep]
    split <;> exact ⟨h.holds, hc, trivial⟩
  | terminate handle =>
    simp only [CompressionSystem.step, appenderStep]
    split
    · exact ⟨h.holds, hc, trivial⟩
    · refine ⟨?_, hc.append handle [newline] fun _ => rfl, trivial⟩
      simp only [Disk.append_logical]
      split
      · exact h.holds.newline
      · exact h.holds
  | writing handle => exact ⟨h.holds, hc, trivial⟩

/-! ## Every interleaving -/

/-- A write goes to the file that the plain name stands for, and the compressor is not about to unlink it. -/
def safeWrite (s : CompressionSystem) : Bool :=
  match s.appender, s.compressor with
  | .writing _, .unlink => false
  | .writing handle, _ => s.disk.plain == some handle
  | _, _ => true

theorem safeWrite_writing {handle : Nat} (h : safeWrite s = true)
    (happ : s.appender = .writing handle) : s.disk.plain = some handle ∧ s.compressor ≠ .unlink := by
  simp only [safeWrite, happ] at h
  cases hpc : s.compressor with
  | unlink => rw [hpc] at h; cases h
  | _ =>
    rw [hpc] at h
    exact ⟨by simpa using h, by simp⟩

theorem write_inv (h : CompressionInv zstd before s) (hsafe : safeWrite s = true)
    (record : Bytes) : CompressionInv zstd before (s.step zstd (.write record)) := by
  simp only [CompressionSystem.step]
  split
  · next handle happ =>
    obtain ⟨hplain, hpc⟩ := safeWrite_writing hsafe happ
    refine ⟨?_, h.compressor.append handle record fun hu => absurd hu hpc, ?_⟩
    · simp only [Disk.append_logical, if_pos hplain]
      exact h.holds.record record
    · exact AppenderInv.append h.appender handle record s.now
  · exact h

def CompressionAction.isWrite : CompressionAction → Bool
  | .write _ => true
  | _ => false

/-- The writes of an interleaving are safe where they are made. -/
def safeRun (zstd : Zstd) (s : CompressionSystem) : List CompressionAction → Bool
  | [] => true
  | action :: actions => (!action.isWrite || safeWrite s) && safeRun zstd (s.step zstd action) actions

theorem step_inv (hzstd : ∀ content, zstd.decode (zstd.encode content) = some content)
    (h : CompressionInv zstd before s) {action}
    (hsafe : (!action.isWrite || safeWrite s) = true) : CompressionInv zstd before (s.step zstd action) := by
  cases action with
  | tick seconds => exact ⟨h.holds, h.compressor.tick (Nat.le_add_right ..), h.appender⟩
  | compress => exact compress_inv hzstd h
  | compressFails => exact ⟨h.holds, trivial, h.appender.early fun _ => rfl⟩
  | append => exact append_inv h
  | appendFails => exact ⟨h.holds, h.compressor, trivial⟩
  | write record => exact write_inv h hsafe record

theorem run_inv (hzstd : ∀ content, zstd.decode (zstd.encode content) = some content)
    (h : CompressionInv zstd before s) {actions}
    (hsafe : safeRun zstd s actions = true) : CompressionInv zstd before (s.run zstd actions) := by
  induction actions generalizing s with
  | nil => exact h
  | cons action actions ih =>
    rw [safeRun, Bool.and_eq_true] at hsafe
    exact ih (step_inv hzstd h hsafe.1) hsafe.2

/-- **Compression keeps what is appended**, in every interleaving whose writes
are neither in the compressor's last window nor to a file it has unlinked. -/
theorem compression_keeps_appends (hzstd : ∀ content, zstd.decode (zstd.encode content) = some content) (disk : Disk)
    (now : Nat) (actions : List CompressionAction) (hsafe : safeRun zstd { disk, now } actions = true) :
    let s := CompressionSystem.run zstd { disk, now } actions
    HoldsAppends (disk.logical zstd) s.appended (s.disk.logical zstd) := by
  have hinit : CompressionInv zstd (disk.logical zstd) { disk, now } :=
    ⟨⟨[], (List.append_nil _).symm, .nil⟩, trivial, trivial⟩
  exact (run_inv hzstd hinit hsafe).holds

/-! ## A run -/

/-- The frames that `zstd` writes for short contents it does not compress: one raw block. -/
def rawZstd : Zstd where
  encode content :=
    let header := content.length * 8 + 1
    [0x28, 0xB5, 0x2F, 0xFD, 0x00, 0x58, UInt8.ofNat header, UInt8.ofNat (header / 256), UInt8.ofNat (header / 65536)] ++
      content
  decode frame := if frame.take 6 = [0x28, 0xB5, 0x2F, 0xFD, 0x00, 0x58] then some (frame.drop 9) else none

/-- A rollout of one line. -/
def lineDisk : Disk :=
  { plain := some 0, compressed := none, fresh := 1,
    inodes := fun _ => { content := ascii "one\n", modified := 0, permissions := 0o600 } }

theorem rawZstd_decode (content : Bytes) : rawZstd.decode (rawZstd.encode content) = some content := by
  simp [rawZstd]

/-- The appender opens the file, the compressor compresses it, and the appender writes. -/
def openCompressWrite (record : Bytes) : List CompressionAction :=
  List.replicate 3 .append ++ [.tick minRolloutAge] ++ List.replicate 8 .compress ++ [.write record]

/-- The appender writes, and the compressor compresses the file a week later. -/
def writeCompress (record : Bytes) : List CompressionAction :=
  List.replicate 3 .append ++ [.write record, .append, .tick minRolloutAge] ++ List.replicate 8 .compress

theorem compression_keeps_written :
    let s := CompressionSystem.run rawZstd { disk := lineDisk, now := 0 } (writeCompress (ascii "two\n"))
    HoldsAppends (lineDisk.logical rawZstd) s.appended (s.disk.logical rawZstd) :=
  compression_keeps_appends rawZstd_decode lineDisk 0 (writeCompress (ascii "two\n")) (by decide +kernel)

/-- What is written through a handle from before the compression is lost. -/
theorem compression_loses_append :
    let s := CompressionSystem.run rawZstd { disk := lineDisk, now := 0 } (openCompressWrite (ascii "two\n"))
    ¬ HoldsAppends (lineDisk.logical rawZstd) s.appended (s.disk.logical rawZstd) := by
  intro s hholds
  have happended : s.appended = [ascii "two\n"] := by decide +kernel
  have hlogical : s.disk.logical rawZstd = lineDisk.logical rawZstd := by decide +kernel
  obtain ⟨tail, htail, happ⟩ := hholds
  rw [hlogical, List.self_eq_append_right] at htail
  rw [happended, htail] at happ
  have hlen := happ.length_le
  exact absurd hlen (by decide)

end Codex
